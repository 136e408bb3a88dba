import HeaderOutline.TemplateParam
import HeaderOutline.Proofs.CType.Extent
import HeaderOutline.Proofs.Lexeme.Gap
import HeaderOutline.Proofs.Parser.Related
import HeaderOutline.Proofs.Source.Default
/-!
# Default arguments in template heads

A parameter that stands for a type may have a default argument, which is kept as raw text. That text is the text of the
type, however many lists end with it, and the parameters behind it are read as they are in a head of their own.
-/

namespace HeaderOutline

open HeaderOutline.Parser HeaderOutline.CType

variable {α : Type} {room limit limit' size : Nat} {input rest more around : Text} {p : Parser α}

/-! ### Heads behind their first bracket -/

/-- The parser for the heads of template parameters, which are shorter than the head that they stand in. -/
def headBelow (room limit : Nat) : Parser (List TemplateParam) := fun input =>
  if input.length < limit then templateHead room input else .mismatch []

/-- A parameter in a head, with the gaps around it. -/
def templateItem (room : Nat) (head : Parser (List TemplateParam)) : Parser TemplateParam :=
  spaced (firstOf [TemplateParam.typeParam head, TemplateParam.valueParam room])

/-- The parameters of a head, up to the gap behind it. -/
def templateItems (room : Nat) (head : Parser (List TemplateParam)) : Parser (List TemplateParam) := do
  let params ← sepBy (spaced (char ',')) (templateItem room head)
  let _ ← afterGap (char '>')
  let _ ← skipGap
  pure params

theorem templateHead_append (room : Nat) (more : Text) : templateHead room ("template<".toList ++ more) =
    templateItems room (headBelow room ("template<".toList ++ more).length) more := by
  have hkeyword : beforeGap (keyword "template") ("template".toList ++ '<' :: more) = .ok "template".toList ('<' :: more) := by
    rw [beforeGap_of_ok (keyword_append "template" (endsWord_cons (by decide) more)), gapEnd_cons (by decide) (by decide)]
  rw [templateHead, recurse_apply]
  exact (bind_of_ok hkeyword).trans (bind_of_ok (char_cons '<' more))

/-! ### The limit makes no difference to shorter texts -/

/-- The same text, with no more than so many characters. -/
def SameUpTo (size : Nat) (input other : Text) : Prop := input = other ∧ input.length ≤ size

theorem measured_sameUpTo : Measured (SameUpTo size) (SameUpTo size) := by
  rintro _ _ _ _ ⟨rfl, -⟩ ⟨rfl, -⟩
  exact Iff.rfl

theorem relates_sameUpTo [Bounded p] : Relates (SameUpTo size) (SameUpTo size) p p where
  outcome := by
    rintro input _ ⟨rfl, hsize⟩
    cases hp : p input with
    | ok a rest => exact .ok ⟨rfl, (Bounded.suffix hp).length_le.trans hsize⟩
    | mismatch => exact .mismatch
    | failure => exact .failure

theorem relates_headBelow (hlimit : size < limit) (hlimit' : size < limit') :
    Relates (SameUpTo size) (SameUpTo size) (headBelow room limit) (headBelow room limit') where
  outcome := by
    rintro input _ ⟨rfl, hsize⟩
    rw [headBelow, headBelow, if_pos (by omega), if_pos (by omega)]
    exact relates_sameUpTo.outcome ⟨rfl, hsize⟩

theorem relates_templateItem (hlimit : size < limit) (hlimit' : size < limit') :
    Relates (SameUpTo size) (SameUpTo size) (templateItem room (headBelow room limit)) (templateItem room (headBelow room limit')) := by
  have hhead : Relates (SameUpTo size) (SameUpTo size) (beforeGap (headBelow room limit)) (beforeGap (headBelow room limit')) :=
    (relates_headBelow hlimit hlimit').bind fun _ => relates_sameUpTo
  have htype : Relates (SameUpTo size) (SameUpTo size) (TemplateParam.typeParam (headBelow room limit))
      (TemplateParam.typeParam (headBelow room limit')) := (hhead.opt id).bind fun _ => relates_sameUpTo
  exact relates_sameUpTo.bind fun _ =>
    (Relates.firstOf (.cons htype (.cons relates_sameUpTo .nil))).bind fun _ => relates_sameUpTo

theorem relates_templateItems (hlimit : size < limit) (hlimit' : size < limit') : Relates (SameUpTo size) (SameUpTo size)
    (sepBy (spaced (char ',')) (templateItem room (headBelow room limit)))
    (sepBy (spaced (char ',')) (templateItem room (headBelow room limit'))) :=
  .sepBy (relates_templateItem hlimit hlimit') relates_sameUpTo (relates_templateItem hlimit hlimit') measured_sameUpTo id

/-! ### Parameters with default arguments -/

instance : Bounded (headBelow room limit) where
  within input := by
    unfold headBelow
    split
    · exact BoundedBy.within input
    · trivial

instance : Bounded (templateItem room (headBelow room limit)) := by
  unfold templateItem
  infer_instance

/-- One more parameter, with the comma behind it. -/
theorem sepBy_templateItem_cons {param : TemplateParam} {params : List TemplateParam}
    (hitem : templateItem room (headBelow room limit) input = .ok param (", ".toList ++ more)) (hne : params ≠ [])
    (hmore : sepBy (spaced (char ',')) (templateItem room (headBelow room limit)) more = .ok params rest) :
    sepBy (spaced (char ',')) (templateItem room (headBelow room limit)) input = .ok (param :: params) rest := by
  cases hfirst : templateItem room (headBelow room limit) more with
  | ok first next =>
    have hagain : templateItem room (headBelow room limit) (gapEnd more) = .ok first next := by
      rw [← hfirst, templateItem, spaced, afterGap_apply, afterGap_apply, gapEnd_gapEnd]
    have hlt : next.length < (", ".toList ++ more).length := by
      have hnext := (Bounded.suffix hfirst).length_le
      simp
      omega
    rw [sepBy_of_ok hfirst] at hmore
    rw [sepBy_of_ok hitem, sepTail_of_ok (spaced_comma_append more) hagain hlt, hmore]
    rfl
  | mismatch trace =>
    rw [sepBy_of_mismatch ⟨trace, hfirst⟩] at hmore
    cases hmore
    exact absurd rfl hne
  | failure trace =>
    rw [sepBy, hfirst] at hmore
    cases hmore

theorem headBelow_of_ne (hinput : headWord input ≠ "template".toList) : Mismatches (headBelow room limit) input := by
  unfold Mismatches headBelow
  split
  · exact templateHead_of_ne hinput
  · exact ⟨_, rfl⟩

/-- A parameter that stands for a type, with a type as its default argument. -/
structure DefaultedParam where
  word : String
  name : Text
  type : CType

namespace DefaultedParam

structure IsWritten (param : DefaultedParam) : Prop where
  word : param.word ∈ ["typename", "class"]
  name : isIdentifier param.name = true
  type : Argument param.type

/-- The equals sign and the default argument. -/
def assigned (around : Text) (param : DefaultedParam) : Text := around ++ '=' :: (around ++ render param.type)

def text (around : Text) (param : DefaultedParam) : Text :=
  param.word.toList ++ ' ' :: (param.name ++ param.assigned around)

/-- The parameter that is read. -/
def value (param : DefaultedParam) : TemplateParam :=
  { name := some param.name, type := none, defaultValue := some (render param.type), isVariadic := false }

end DefaultedParam

namespace DefaultedParam.IsWritten

variable {param : DefaultedParam} (hparam : param.IsWritten)

include hparam

theorem startsToken (around rest : Text) : StartsToken (param.text around ++ rest) := by
  have hwords : ∀ word ∈ ["typename", "class"], isIdentifier word.toList = true := by decide
  rw [text, List.append_assoc]
  exact startsToken_word (hwords param.word hparam.word) _

theorem defaultArgument (haround : IsSpaces around) (hrest : EndsItem '>' rest) :
    TemplateParam.defaultArgument (param.assigned around ++ rest) = .ok (render param.type) rest := by
  have htoken := hparam.type.startsToken (hrest.endsType (by decide)).word
  have hassign := assign_of_startsToken haround htoken
  rw [assigned, List.append_assoc, List.cons_append, List.append_assoc, TemplateParam.defaultArgument, bind_of_ok hassign]
  exact expression_argument hparam.type hrest

theorem typeParam (haround : IsSpaces around) (hrest : EndsItem '>' rest) :
    TemplateParam.typeParam (headBelow room limit) (param.text around ++ rest) = .ok param.value rest := by
  have hwords : ∀ word ∈ ["typename", "class"], IsWord word ∧ word.toList ≠ "template".toList := by decide
  obtain ⟨hword, hne⟩ := hwords param.word hparam.word
  obtain ⟨behind, hbehind⟩ : ∃ behind, behind = param.assigned around ++ rest := ⟨_, rfl⟩
  have htext : param.text around ++ rest = param.word.toList ++ ' ' :: (param.name ++ behind) := by
    simp only [hbehind, text, List.append_assoc, List.cons_append]
  have hspace : EndsWord (' ' :: (param.name ++ behind)) := endsWord_cons (by decide) _
  have hhead : Mismatches (headBelow room limit) (param.word.toList ++ ' ' :: (param.name ++ behind)) :=
    headBelow_of_ne (by rwa [headWord_append hword hspace])
  have hgap : gapEnd (' ' :: (param.name ++ behind)) = param.name ++ behind :=
    gapEnd_append_token isSpaces_one (startsToken_word hparam.name behind)
  have hdots : Mismatches (afterGap (literal "...")) (' ' :: (param.name ++ behind)) := by
    refine .afterGap (literal_of_ne (c := '.') rfl ?_)
    rw [hgap]
    exact head?_word_ne hparam.name (by decide) behind
  have hname : afterGap identifier (' ' :: (param.name ++ behind)) = .ok param.name behind := by
    rw [afterGap_apply, hgap]
    refine identifier_append hparam.name ?_
    rw [hbehind, assigned, List.append_assoc, List.cons_append]
    exact endsWord_assign haround _
  have hdefault := hparam.defaultArgument haround hrest
  rw [← hbehind] at hdefault
  rw [htext, TemplateParam.typeParam, bind_of_ok (opt_of_mismatch hhead.beforeGap),
    bind_of_ok (anyKeyword_append (by decide) hparam.word hspace), bind_of_ok (opt_of_mismatch hdots),
    bind_of_ok (opt_of_ok hname), bind_of_ok (opt_of_ok hdefault)]
  rfl

/-- The parameter is read in a head, up to the comma or bracket behind it. -/
theorem templateItem (haround : IsSpaces around) (hrest : EndsItem '>' rest) :
    templateItem room (headBelow room limit) (param.text around ++ rest) = .ok param.value rest := by
  have hread : firstOf [TemplateParam.typeParam (headBelow room limit), TemplateParam.valueParam room]
      (gapEnd (param.text around ++ rest)) = .ok param.value rest := by
    rw [gapEnd_of_startsToken (hparam.startsToken around rest)]
    exact firstOf_of_ok (hparam.typeParam haround hrest)
  rw [HeaderOutline.templateItem, spaced_of_ok hread, gapEnd_of_startsToken (hrest.startsToken (by decide))]

/-- The last parameter, with the bracket that closes the head. -/
theorem templateHead_last (haround : IsSpaces around) (rest : Text) :
    templateHead room ("template<".toList ++ (param.text around ++ '>' :: rest)) = .ok [param.value] (gapEnd rest) := by
  have hends : EndsItem '>' ('>' :: rest) := ⟨'>', by decide, rest, rfl⟩
  have hgap : gapEnd ('>' :: rest) = '>' :: rest := gapEnd_of_startsToken (hends.startsToken (by decide))
  have hstop : Mismatches (spaced (char ',')) ('>' :: rest) := .spaced (char_of_ne (by rw [hgap]; exact head?_cons_ne (by decide) rest))
  have hlist {limit : Nat} : sepBy (spaced (char ',')) (HeaderOutline.templateItem room (headBelow room limit))
      (param.text around ++ '>' :: rest) = .ok [param.value] ('>' :: rest) := by
    rw [sepBy_of_ok (hparam.templateItem haround hends), sepTail_of_mismatch hstop]
    rfl
  rw [templateHead_append, templateItems, bind_of_ok hlist, bind_of_ok (afterGap_char hgap)]
  rfl

/-- A parameter in front of others makes no difference to how these are read. -/
theorem templateHead_cons (haround : IsSpaces around) {params : List TemplateParam} (hne : params ≠ [])
    (hmore : templateHead room ("template<".toList ++ more) = .ok params rest) :
    templateHead room ("template<".toList ++ (param.text around ++ (", ".toList ++ more))) = .ok (param.value :: params) rest := by
  have hends : EndsItem '>' (", ".toList ++ more) := ⟨',', by decide, ' ' :: more, rfl⟩
  rw [templateHead_append] at hmore ⊢
  obtain ⟨read, mid, hlist, hclose⟩ := bind_eq_ok.1 hmore
  obtain ⟨bracket, behind, hbracket, hlast⟩ := bind_eq_ok.1 hclose
  cases hlast
  -- With more text in front the heads inside the other parameters are read as before.
  have hsize : more.length < ("template<".toList ++ more).length := by
    simp
    omega
  have hsize' : more.length < ("template<".toList ++ (param.text around ++ (", ".toList ++ more))).length := by
    simp
    omega
  obtain ⟨_, hlist, rfl, -⟩ := (relates_templateItems hsize hsize').outcome ⟨rfl, le_rfl⟩ |>.exists_ok hlist
  have hall := sepBy_templateItem_cons (hparam.templateItem haround hends) hne hlist
  rw [templateItems, bind_of_ok hall, bind_of_ok hbracket]
  rfl

end DefaultedParam.IsWritten

open DefaultedParam

theorem templateHead_defaults {param : DefaultedParam} {params : List DefaultedParam}
    (hparams : ∀ other ∈ param :: params, other.IsWritten) (haround : IsSpaces around) (rest : Text) :
    templateHead room ("template<".toList ++ (Text.join ", ".toList ((param :: params).map (text around)) ++ '>' :: rest)) =
      .ok ((param :: params).map value) (gapEnd rest) := by
  induction params generalizing param with
  | nil => exact (hparams param List.mem_cons_self).templateHead_last haround rest
  | cons next params ih =>
    have hothers := ih fun other hother => hparams other (List.mem_cons_of_mem param hother)
    rw [List.map_cons, List.map_cons, Text.join, List.append_assoc, List.append_assoc]
    exact (hparams param List.mem_cons_self).templateHead_cons haround (List.cons_ne_nil _ _) hothers

/-- In front of a comma or `>` raw text reaches as far as the type that is written there, which is read as a type where the levels
suffice for its lists. So parameters with such default arguments are read back from a head, also where the bracket that closes
the head stands directly behind those of the last argument, and other parameters are read behind one as they are without it. -/
theorem templateHead_default (room : Nat) (haround : IsSpaces around) :
    (∀ type rest, Argument type → EndsItem '>' rest →
      expression [','] true (render type ++ rest) = .ok (render type) rest ∧
        (listDepth type < room → argument (templateArgs room) (render type ++ rest) = .ok type rest)) ∧
    (∀ (params : List DefaultedParam) rest, params ≠ [] → (∀ param ∈ params, param.IsWritten) →
      templateHead room ("template<".toList ++ (Text.join ", ".toList (params.map (text around)) ++ '>' :: rest)) =
        .ok (params.map value) (gapEnd rest)) ∧
    ∀ (param : DefaultedParam) params more rest, param.IsWritten → params ≠ [] →
      templateHead room ("template<".toList ++ more) = .ok params rest →
      templateHead room ("template<".toList ++ (param.text around ++ (", ".toList ++ more))) = .ok (param.value :: params) rest := by
  refine ⟨fun type rest htype hrest => ⟨expression_argument htype hrest, fun hdepth => ?_⟩, fun params rest hne hparams => ?_,
    fun param params more rest hparam hne hmore => hparam.templateHead_cons haround hne hmore⟩
  · exact argument_append (templateArgs_append room) htype hdepth hrest
  · obtain ⟨param, params, rfl⟩ := List.exists_cons_of_ne_nil hne
    exact templateHead_defaults hparams haround rest

/-- A comma and a list inside the parentheses of a function type, and one bracket for each of three lists. -/
theorem templateHead_default_nested : IsSpaces [' '] ∧
    templateHead 1 "template<typename F = A<int(B<C>, D)>, class G = A<B<3>>>x".toList =
      .ok [{ name := some "F".toList, type := none, defaultValue := some "A<int(B<C>, D)>".toList, isVariadic := false },
        { name := some "G".toList, type := none, defaultValue := some "A<B<3>>".toList, isVariadic := false }] "x".toList := by
  have hpath {name : Text} (hname : isPlainName name = true) : Argument (.path [name]) := .type (.named (.path hname))
  have hgeneric {name : Text} {arg : CType} (hname : isPlainName name = true) (harg : Argument arg) :
      Written (.generic (.path [name]) [arg]) := .named (.generic hname (List.forall_mem_singleton.2 harg))
  have hfunction : Argument (.function (.path ["int".toList]) [.generic (.path ["B".toList]) [.path ["C".toList]], .path ["D".toList]]) :=
    .function (.named (.path (by decide))) (List.forall_mem_cons.2
      ⟨hgeneric (by decide) (hpath (by decide)), List.forall_mem_singleton.2 (.named (.path (by decide)))⟩)
  have hvalue : Argument (.generic (.path ["B".toList]) [.value ['3']]) := .type (hgeneric (by decide) (.value (by decide) (by decide)))
  have hparams : ∀ param ∈ [⟨"typename", "F".toList, .generic (.path ["A".toList]) [.function (.path ["int".toList])
      [.generic (.path ["B".toList]) [.path ["C".toList]], .path ["D".toList]]]⟩,
      ⟨"class", "G".toList, .generic (.path ["A".toList]) [.generic (.path ["B".toList]) [.value ['3']]]⟩], DefaultedParam.IsWritten param :=
    List.forall_mem_cons.2 ⟨⟨by decide, by decide, .type (hgeneric (by decide) hfunction)⟩,
      List.forall_mem_singleton.2 ⟨by decide, by decide, .type (hgeneric (by decide) hvalue)⟩⟩
  have hspaces : IsSpaces [' '] := by decide
  have hread := (templateHead_default 1 hspaces).2.1 _ ['x'] (List.cons_ne_nil _ _) hparams
  rw [gapEnd_cons (by decide) (by decide)] at hread
  exact ⟨hspaces, hread⟩

end HeaderOutline
