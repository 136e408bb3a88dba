import HeaderOutline.Proofs.CType.Qualified
/-!
# Reading rendered types back

Rendering a type and reading the text gives the type back. Nested lists are read with less room, so that the
result for lists is an induction on the room.
-/

namespace HeaderOutline.CType

open HeaderOutline.Parser

variable {room : Nat} {name type : CType} {names : List Text} {args : List CType} {input rest : Text} {word : Text}

/-! ### Lists -/

/-- A comma or the closing bracket comes next. -/
def EndsItem (closer : Char) (rest : Text) : Prop := ∃ c ∈ [',', closer], ∃ tail, rest = c :: tail

theorem EndsItem.endsType {closer : Char} (hcloser : closer ∈ ['>', ')']) (hrest : EndsItem closer rest) :
    EndsType rest := by
  obtain ⟨c, hc, tail, rfl⟩ := hrest
  refine endsType_cons ?_ tail
  rcases List.mem_cons.1 hc with rfl | hc
  · decide
  · obtain rfl := List.mem_singleton.1 hc
    revert c
    decide

theorem EndsItem.startsToken {closer : Char} (hcloser : closer ∈ ['>', ')']) (hrest : EndsItem closer rest) :
    StartsToken rest := by
  obtain ⟨c, hc, tail, rfl⟩ := hrest
  rcases List.mem_cons.1 hc with rfl | hc
  · exact startsToken_cons (by decide) (by decide) tail
  · obtain rfl := List.mem_singleton.1 hc
    exact startsToken_cons (by revert c; decide) (by revert c; decide) tail

theorem spaced_comma_append (input : Text) : spaced (char ',') (", ".toList ++ input) = .ok ',' (gapEnd input) := by
  have hchar : char ',' (gapEnd (", ".toList ++ input)) = .ok ',' ([' '] ++ input) := by
    have hgap : gapEnd (", ".toList ++ input) = ',' :: ([' '] ++ input) := gapEnd_cons (by decide) (by decide) _
    rw [hgap]
    exact char_cons ',' _
  rw [spaced_of_ok hchar, gapEnd_append isSpaces_one]

theorem spaced_comma (hinput : StartsToken input) : spaced (char ',') (", ".toList ++ input) = .ok ',' input := by
  rw [spaced_comma_append, gapEnd_of_startsToken hinput]

theorem EndsItem.spaced {p : Parser CType} {closer : Char} (hrest : EndsItem closer rest) (hcloser : closer ∈ ['>', ')'])
    (hinput : StartsToken input) (hread : p input = .ok type rest) : spaced p input = .ok type rest := by
  rw [← gapEnd_of_startsToken hinput] at hread
  rw [spaced_of_ok hread, gapEnd_of_startsToken (hrest.startsToken hcloser)]

/-- The item is read wherever a list may go on. -/
def ReadsItem (p : Parser CType) (closer : Char) (type : CType) : Prop :=
  ∀ tail, EndsItem closer tail → p (render type ++ tail) = .ok type tail

/-- The items of a list with commas, each read where a comma or the closing bracket follows it. -/
theorem list_append {p : Parser CType} {types : List CType} {closer : Char} (hcloser : closer ∈ ['>', ')'])
    (hitems : ∀ type ∈ types, ReadsItem p closer type)
    (htokens : ∀ type ∈ types, ∀ tail, EndsItem closer tail → StartsToken (render type ++ tail))
    (hempty : ∀ tail, Mismatches p (closer :: tail)) (rest : Text) :
    sepBy (spaced (char ',')) (spaced p) (renderList types ++ closer :: rest) = .ok types (closer :: rest) := by
  have hends : EndsItem closer (closer :: rest) := ⟨closer, List.mem_cons_of_mem _ List.mem_cons_self, rest, rfl⟩
  have hgap : gapEnd (closer :: rest) = closer :: rest := gapEnd_of_startsToken (hends.startsToken hcloser)
  cases types with
  | nil =>
    refine sepBy_of_mismatch (.spaced ?_)
    rw [renderList, List.nil_append, hgap]
    exact hempty rest
  | cons type types =>
    have hitem : ∀ next ∈ type :: types, ∀ tail, EndsItem closer tail →
        spaced p (render next ++ tail) = .ok next tail := fun next hnext tail htail =>
      htail.spaced hcloser (htokens next hnext tail htail) (hitems next hnext tail htail)
    have hcomma : ∀ next ∈ types, ∀ tail, EndsItem closer tail →
        spaced (char ',') (", ".toList ++ (render next ++ tail)) = .ok ',' (render next ++ tail) :=
      fun next hnext tail htail => spaced_comma (htokens next (List.mem_cons_of_mem type hnext) tail htail)
    have hstop : Mismatches (spaced (char ',')) (closer :: rest) := by
      apply Mismatches.spaced
      rw [hgap]
      refine char_of_ne fun heq => ?_
      rw [Option.some.inj heq] at hcloser
      exact absurd hcloser (by decide)
    have hread := sepBy_flatMap render id (by decide) (fun tail => ⟨',', List.mem_cons_self, ' ' :: tail, rfl⟩)
      hcomma hitem hstop hends
    rw [List.map_id] at hread
    rw [renderList_cons]
    exact hread

/-! ### Numbers -/

def decimalDigits : Text := ['0', '1', '2', '3', '4', '5', '6', '7', '8', '9']

theorem mem_decimalDigits {c : Char} (hc : c.isDigit = true) : c ∈ decimalDigits := by
  have hdigits : ∀ n < 10, Char.ofNat (48 + n) ∈ decimalDigits := by decide
  rw [Char.isDigit, Bool.and_eq_true, decide_eq_true_eq, decide_eq_true_eq] at hc
  obtain ⟨hlower, hupper⟩ : 48 ≤ c.toNat ∧ c.toNat ≤ 57 := hc
  have hmem := hdigits (c.toNat - 48) (by omega)
  rw [Nat.add_sub_cancel' hlower, Char.ofNat_toNat] at hmem
  exact hmem

theorem trim_of_not_isBlank {text : Text} (htext : ∀ c ∈ text, Text.isBlank c = false) : Text.trim text = text := by
  have hdrop : ∀ text : Text, (∀ c ∈ text, Text.isBlank c = false) → text.dropWhile Text.isBlank = text := by
    intro text htext
    cases text with
    | nil => rfl
    | cons c text => exact List.dropWhile_cons_of_neg (Bool.eq_false_iff.1 (htext c List.mem_cons_self))
  rw [Text.trim, Text.trimEnd, Text.trimStart, Text.dropTail, hdrop text htext,
    hdrop text.reverse fun c hc => htext c (List.mem_reverse.1 hc), List.reverse_reverse]

theorem expressionFrom_digit {c : Char} (hc : c.isDigit = true) (before rest : Text) :
    expressionFrom [','] true [] .code before (c :: rest) = expressionFrom [','] true [] .code (c :: before) rest := by
  have hc := mem_decimalDigits hc
  simp only [decimalDigits, List.mem_cons, List.not_mem_nil, or_false] at hc
  rcases hc with rfl | rfl | rfl | rfl | rfl | rfl | rfl | rfl | rfl | rfl <;> rfl

theorem expressionFrom_digits {digits : Text} (hdigits : ∀ c ∈ digits, c.isDigit = true) (before rest : Text) :
    expressionFrom [','] true [] .code before (digits ++ rest) =
      expressionFrom [','] true [] .code (digits.reverse ++ before) rest := by
  induction digits generalizing before with
  | nil => rfl
  | cons c digits ih =>
    rw [List.cons_append, expressionFrom_digit (hdigits c List.mem_cons_self),
      ih fun d hd => hdigits d (List.mem_cons_of_mem c hd), List.reverse_cons, List.append_assoc]
    rfl

theorem expressionFrom_endsItem (before : Text) (hrest : EndsItem '>' rest) :
    expressionFrom [','] true [] .code before rest = (before.reverse, rest) := by
  obtain ⟨c, hc, tail, rfl⟩ := hrest
  simp only [List.mem_cons, List.not_mem_nil, or_false] at hc
  rcases hc with rfl | rfl <;> rfl

theorem expression_digits {digits : Text} (hdigits : ∀ c ∈ digits, c.isDigit = true) (hdigits_ne : digits ≠ [])
    (hrest : EndsItem '>' rest) : expression [','] true (digits ++ rest) = .ok digits rest := by
  have hblank : ∀ c ∈ decimalDigits, Text.isBlank c = false := by decide
  have htrim : Text.trim digits = digits := trim_of_not_isBlank fun c hc => hblank c (mem_decimalDigits (hdigits c hc))
  rw [expression, expressionFrom_digits hdigits, expressionFrom_endsItem _ hrest, List.append_nil, List.reverse_reverse]
  dsimp only
  rw [htrim, if_neg (by rwa [List.isEmpty_iff])]

/-! ### Arguments -/

theorem isWordStart_of_isDigit {c : Char} (hc : c.isDigit = true) : isWordStart c = false ∧ c ≠ ':' := by
  have hdigits : ∀ c ∈ decimalDigits, isWordStart c = false ∧ c ≠ ':' := by decide
  exact hdigits c (mem_decimalDigits hc)

theorem EndsItem.lookahead (hrest : EndsItem '>' rest) :
    ∃ c, lookahead (afterGap (oneOf [',', '>'])) rest = .ok c rest := by
  have hgap : gapEnd rest = rest := gapEnd_of_startsToken (hrest.startsToken (by decide))
  obtain ⟨c, hc, tail, rfl⟩ := hrest
  have hread : afterGap (oneOf [',', '>']) (c :: tail) = .ok c tail := by
    rw [afterGap_apply, hgap]
    exact oneOf_of_mem hc tail
  exact ⟨c, lookahead_of_ok hread⟩

theorem EndsItem.ne {closer c : Char} (hrest : EndsItem closer rest) (hc : c ∉ [',', closer]) : rest.head? ≠ some c := by
  obtain ⟨d, hd, tail, rfl⟩ := hrest
  rintro ⟨⟩
  exact hc hd

theorem typeArgument_append (htype : ReadsType room type) (hrest : EndsItem '>' rest) :
    typeArgument (templateArgs room) (render type ++ rest) = .ok type rest := by
  have hparams : Mismatches (afterGap (char '(')) rest := by
    apply Mismatches.afterGap
    rw [gapEnd_of_startsToken (hrest.startsToken (by decide))]
    exact char_of_ne (hrest.ne (by decide))
  obtain ⟨c, hlookahead⟩ := hrest.lookahead
  rw [typeArgument, bind_of_ok (htype rest (hrest.endsType (by decide))), bind_of_ok (opt_of_mismatch hparams.bind),
    bind_of_ok hlookahead]
  rfl

theorem ReadsType.readsItem {closer : Char} (htype : ReadsType room type) (hcloser : closer ∈ ['>', ')']) :
    ReadsItem (qualified (templateArgs room)) closer type := fun tail htail => htype tail (htail.endsType hcloser)

theorem params_append {params : List CType}
    (hparams : ∀ param ∈ params, Written param ∧ ReadsItem (qualified (templateArgs room)) ')' param) (rest : Text) :
    sepBy (spaced (char ',')) (spaced (qualified (templateArgs room))) (renderList params ++ ')' :: rest) =
      .ok params (')' :: rest) := by
  refine list_append (by decide) (fun param hparam => (hparams param hparam).2) (fun param hparam tail htail => ?_)
    (fun tail => (startsNoType_cons (by decide) (by decide) tail).qualified) rest
  exact (hparams param hparam).1.startsToken (htail.endsType (by decide)).word

theorem typeArgument_append_function {params : List CType} (htype : ReadsType room type)
    (hparams : ∀ param ∈ params, Written param ∧ ReadsItem (qualified (templateArgs room)) ')' param) (hrest : EndsItem '>' rest) :
    typeArgument (templateArgs room) (render (.function type params) ++ rest) = .ok (.function type params) rest := by
  have hgap {c : Char} (hspace : isSpace c = false) (hslash : c ≠ '/') (tail : Text) :
      afterGap (char c) (c :: tail) = .ok c tail := afterGap_char (gapEnd_cons hspace hslash tail)
  have hread := htype _ (endsType_cons (c := '(') (by decide) (renderList params ++ ')' :: rest))
  have hlist : (do
      let _ ← afterGap (char '(')
      let params ← sepBy (spaced (char ',')) (spaced (qualified (templateArgs room)))
      let _ ← afterGap (char ')')
      pure params) ('(' :: (renderList params ++ ')' :: rest)) = .ok params rest := by
    rw [bind_of_ok (hgap (by decide) (by decide) _), bind_of_ok (params_append hparams rest),
      bind_of_ok (hgap (by decide) (by decide) rest)]
    rfl
  obtain ⟨c, hlookahead⟩ := hrest.lookahead
  have htext : render (.function type params) ++ rest = render type ++ '(' :: (renderList params ++ ')' :: rest) := by
    rw [render]
    simp only [List.append_assoc, List.cons_append, List.nil_append]
  rw [htext, typeArgument, bind_of_ok hread, bind_of_ok (opt_of_ok hlist), bind_of_ok hlookahead]
  rfl

theorem argument_append_value {digits : Text} (hdigits : ∀ c ∈ digits, c.isDigit = true) (hdigits_ne : digits ≠ [])
    (hrest : EndsItem '>' rest) : argument (templateArgs room) (render (.value digits) ++ rest) = .ok (.value digits) rest := by
  have htype : Mismatches (typeArgument (templateArgs room)) (digits ++ rest) := by
    obtain ⟨c, digits, rfl⟩ := List.exists_cons_of_ne_nil hdigits_ne
    obtain ⟨hword, hcolon⟩ := isWordStart_of_isDigit (hdigits c List.mem_cons_self)
    exact .bind (startsNoType_cons hword hcolon _).qualified
  rw [render, argument, firstOf_of_mismatch htype]
  exact firstOf_of_ok (map_of_ok (expression_digits hdigits hdigits_ne hrest))

theorem argument_append (hreads : ReadsLists room) (htype : Argument type) (hdepth : listDepth type < room)
    (hrest : EndsItem '>' rest) : argument (templateArgs room) (render type ++ rest) = .ok type rest := by
  cases htype with
  | type htype => exact firstOf_of_ok (typeArgument_append (readsType_of_listDepth hreads htype hdepth) hrest)
  | function hresult hparams =>
    rw [listDepth] at hdepth
    refine firstOf_of_ok (typeArgument_append_function (readsType_of_listDepth hreads hresult (by omega))
      (fun param hparam => ⟨hparams param hparam, ?_⟩) hrest)
    have hparam_depth := listDepth_le_deepest hparam
    exact (readsType_of_listDepth hreads (hparams param hparam) (by omega)).readsItem (by decide)
  | value hdigits hdigits_ne => exact argument_append_value hdigits hdigits_ne hrest

theorem argument_of_closer (rest : Text) : Mismatches (argument (templateArgs room)) ('>' :: rest) := by
  have hends : EndsItem '>' ('>' :: rest) := ⟨'>', by decide, rest, rfl⟩
  have htype : Mismatches (typeArgument (templateArgs room)) ('>' :: rest) :=
    .bind (startsNoType_cons (by decide) (by decide) rest).qualified
  have hvalue : Mismatches (expression [','] true) ('>' :: rest) := by
    refine ⟨[⟨'>' :: rest, .rule .until⟩], ?_⟩
    rw [expression, expressionFrom_endsItem [] hends]
    rfl
  refine .firstOf_cons ?_ (.firstOf_cons ?_ .firstOf_nil)
  · exact htype
  · exact hvalue.map

theorem Argument.startsToken (htype : Argument type) (hrest : EndsWord rest) : StartsToken (render type ++ rest) := by
  cases htype with
  | type htype => exact htype.startsToken hrest
  | function hresult hparams =>
    rw [render, List.append_assoc, List.append_assoc]
    exact hresult.startsToken (endsWord_cons (by decide) _)
  | @value digits hdigits hdigits_ne =>
    obtain ⟨d, digits, rfl⟩ := List.exists_cons_of_ne_nil hdigits_ne
    have hall : ∀ c ∈ decimalDigits, isSpace c = false ∧ c ≠ '/' := by decide
    obtain ⟨hspace, hslash⟩ := hall d (mem_decimalDigits (hdigits d List.mem_cons_self))
    rw [render]
    exact startsToken_cons hspace hslash _

/-- The lists inside the arguments are read with one level less. -/
theorem readsList_of_readsItem {types : List CType}
    (htypes : ∀ type ∈ types, Argument type ∧ ReadsItem (argument (templateArgs room)) '>' type) : ReadsList (room + 1) types := by
  intro rest
  have hlist : sepBy (spaced (char ',')) (spaced (argument (templateArgs room))) (renderList types ++ '>' :: rest) =
      .ok types ('>' :: rest) := by
    refine list_append (by decide) (fun type htype => (htypes type htype).2) (fun type htype tail htail => ?_)
      argument_of_closer rest
    exact (htypes type htype).1.startsToken (htail.endsType (by decide)).word
  have hcloser : afterGap (char '>') ('>' :: rest) = .ok '>' rest :=
    afterGap_char (gapEnd_cons (by decide) (by decide) rest)
  rw [templateArgs, List.cons_append, bind_of_ok (char_cons '<' _), bind_of_ok hlist, bind_of_ok hcloser]
  rfl

theorem templateArgs_append (room : Nat) : ReadsLists room := by
  induction room with
  | zero => exact fun types _ hdepth => absurd hdepth (Nat.not_lt_zero _)
  | succ room ih =>
    intro types htypes hdepth rest
    refine readsList_of_readsItem (fun type htype => ⟨htypes type htype, fun tail htail => ?_⟩) rest
    have hdepth := listDepth_le_deepest htype
    exact argument_append ih (htypes type htype) (by omega) htail

end HeaderOutline.CType

namespace HeaderOutline

open HeaderOutline.CType

theorem cType_append {room : Nat} {type : CType} {rest : Text} (htype : Written type) (hdepth : listDepth type < room)
    (hrest : EndsType rest) : cType room (render type ++ rest) = .ok type rest :=
  readsType_of_listDepth (templateArgs_append room) htype hdepth rest hrest

/-- Rendering a type and reading the text gives the type back, with nothing left. -/
theorem cType_render {type : CType} (htype : Written type) (hdepth : listDepth type < nestingLimit) :
    cType nestingLimit (render type) = .ok type [] := by
  have hread := cType_append htype hdepth endsType_nil
  rw [List.append_nil] at hread
  exact hread

/-- A function type and a number in a list in a list, with a member, `const` and marks around them. -/
def mapIterator : CType :=
  let mapped := .generic (.path ["V".toList])
    [.function (.path ["R".toList]) [.pointer (.path ["A".toList])], .value "64".toList]
  let map := .generic (.path [[], "std".toList, "map".toList]) [.path ["long".toList], mapped]
  .pack (.reference (.const (.member map (.path ["iterator".toList]))))

theorem cType_render_mapIterator :
    cType nestingLimit "const ::std::map<long, V<R(A*), 64>>::iterator&...".toList = .ok mapIterator [] := by
  have hmapped : ∀ arg ∈ [CType.function (.path ["R".toList]) [.pointer (.path ["A".toList])], .value "64".toList],
      Argument arg := by
    intro arg harg
    simp only [List.mem_cons, List.not_mem_nil, or_false] at harg
    rcases harg with rfl | rfl
    · refine .function (.named (.path (by decide))) fun param hparam => ?_
      obtain rfl := List.mem_singleton.1 hparam
      exact .pointer (.named (.path (by decide)))
    · exact .value (by decide) (by decide)
  have hmap : ∀ arg ∈ [CType.path ["long".toList], .generic (.path ["V".toList])
      [.function (.path ["R".toList]) [.pointer (.path ["A".toList])], .value "64".toList]], Argument arg := by
    intro arg harg
    simp only [List.mem_cons, List.not_mem_nil, or_false] at harg
    rcases harg with rfl | rfl
    · exact .type (.named (.path (by decide)))
    · exact .type (.named (.generic (by decide) hmapped))
  have hwritten : Written mapIterator := .pack (.reference (.const (.member (by decide) hmap (.path (by decide)))))
  exact cType_render hwritten (by decide)

end HeaderOutline
