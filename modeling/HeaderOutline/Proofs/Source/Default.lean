import HeaderOutline.Proofs.Lexeme.Expression
import HeaderOutline.Proofs.Source.Levels
/-!
# Default arguments as they are written

A parameter may have a default value that makes an object of a named type. The value is read up to the first comma that
stands in no parenthesis, and a comma between template arguments is such a comma. So if none of its default values has a comma
there, a function is read back, as far as the levels of nesting suffice for its types; otherwise it is not read as this function.
-/

namespace HeaderOutline

open HeaderOutline.Parser

variable {room : Nat} {input rest tail name : Text} {type : CType}

namespace CType

/-! ### Commas in types -/

theorem bracketed_renderList {types : List CType} (htypes : ∀ type ∈ types, Bracketed (hasBareComma type) (render type)) :
    Bracketed (listsBareComma types) (renderList types) := by
  induction types with
  | nil => exact .nil
  | cons first types ih =>
    have hfirst := htypes first List.mem_cons_self
    cases types with
    | nil => exact hfirst
    | cons next types =>
      have hlist := ih fun type htype => htypes type (List.mem_cons_of_mem first htype)
      have hcomma : Bracketed true ", ".toList := .append .comma (.idle (by decide))
      have hall := (hfirst.append hcomma).append hlist
      rw [Bool.or_true, Bool.true_or] at hall
      exact hall

/-- The brackets of a type match, and the tree tells whether a comma stands outside of them. -/
theorem Argument.bracketed {arg : CType} (harg : Argument arg) : Bracketed (hasBareComma arg) (render arg) := by
  refine Argument.comma_induction .nil .append (fun c hc => ?char) (fun args ih => ?angles) (fun params _ ih => ?params) harg
  case char =>
    have hnone : ∀ c ∈ ['\'', '"', '/', '(', '[', '{', ')', ']', '}', ';', ','], ¬IsTypeChar c := by decide
    exact .idle fun hmem => hnone c hmem hc
  case angles =>
    have hopener : Bracketed false ['<'] := .idle (by decide)
    have hcloser : ∀ c ∈ ['>'], IsIdle c := by decide
    exact (hopener.append (bracketed_renderList ih)).append_idle hcloser
  case params => exact .block (by unfold IsBracketPair; decide) (bracketed_renderList ih)

end CType

open HeaderOutline.CType

/-! ### Default values -/

theorem assign_of_startsToken {around value : Text} (haround : IsSpaces around) (hvalue : StartsToken value) :
    spaced (char '=') (around ++ '=' :: (around ++ value)) = .ok '=' value := by
  have hread : char '=' (gapEnd (around ++ '=' :: (around ++ value))) = .ok '=' (around ++ value) := by
    rw [gapEnd_append_cons haround (by decide) (by decide)]
    exact char_cons '=' _
  rw [spaced_of_ok hread, gapEnd_append_token haround hvalue]

theorem endsWord_assign {around : Text} (haround : IsSpaces around) (value : Text) : EndsWord (around ++ '=' :: value) :=
  haround.isGap.endsWord fun _ => endsWord_cons (by decide) value

/-- An object of a type that is made without arguments. -/
structure DefaultArgument where
  type : CType
  /-- Braces stand behind the type instead of parentheses. -/
  isBraced : Bool

namespace DefaultArgument

def text (default : DefaultArgument) : Text :=
  render default.type ++ if default.isBraced then ['\x7b', '\x7d'] else ['(', ')']

theorem bracketed_text {default : DefaultArgument} (hdefault : Named default.type) :
    Bracketed default.type.hasBareComma default.text := by
  have hbrackets : Bracketed false (if default.isBraced then ['\x7b', '\x7d'] else ['(', ')']) := by
    have hempty : Bracketed false [] := .nil
    cases default.isBraced with
    | false => exact hempty.block (show IsBracketPair '(' ')' by unfold IsBracketPair; decide)
    | true => exact hempty.block (show IsBracketPair '\x7b' '\x7d' by unfold IsBracketPair; decide)
  have hall := (Argument.type (.named hdefault)).bracketed.append hbrackets
  rwa [Bool.or_false] at hall

/-- The text begins with a name and ends with a bracket. -/
theorem text_cons {default : DefaultArgument} (hdefault : Named default.type) (tail : Text) :
    ∃ c text, default.text ++ tail = c :: text ∧ (isWordStart c = true ∨ c = ':') := by
  rw [text, List.append_assoc]
  exact (hdefault.front _).head

theorem getLast?_text (default : DefaultArgument) : default.text.getLast? = some (if default.isBraced then '\x7d' else ')') := by
  rw [text]
  cases default.isBraced <;> simp

theorem text_ne (default : DefaultArgument) : default.text ≠ [] := by
  intro hnil
  have hlast := default.getLast?_text
  rw [hnil] at hlast
  cases hlast

theorem startsToken_text {default : DefaultArgument} (hdefault : Named default.type) (tail : Text) :
    StartsToken (default.text ++ tail) := by
  obtain ⟨c, text, htext, hc⟩ := text_cons hdefault tail
  exact StartsLine.startsToken ⟨c, text, htext, hc⟩

theorem isBlank_head {default : DefaultArgument} (hdefault : Named default.type) :
    ∀ c ∈ default.text.head?, Text.isBlank c = false := by
  obtain ⟨c, text, htext, hc⟩ := text_cons hdefault []
  rw [List.append_nil] at htext
  rw [htext]
  rintro _ ⟨⟩
  rcases hc with hc | rfl
  · exact isBlank_of_isWordStart hc
  · decide

theorem isBlank_getLast (default : DefaultArgument) : ∀ c ∈ default.text.getLast?, Text.isBlank c = false := by
  rw [getLast?_text]
  rintro _ ⟨⟩
  cases default.isBraced <;> decide

section Initializer

variable {default : DefaultArgument} (hdefault : Named default.type) {around : Text} (haround : IsSpaces around)

include hdefault haround

theorem assign_append (tail : Text) : spaced (char '=') (around ++ '=' :: (around ++ (default.text ++ tail))) =
    .ok '=' (default.text ++ tail) := assign_of_startsToken haround (startsToken_text hdefault tail)

/-- The value behind an equals sign is read up to the end of the parameter. -/
theorem initializer_append (hbare : default.type.hasBareComma = false) (htail : EndsParam tail) : ∃ mid,
    Declarator.initializer (around ++ '=' :: (around ++ (default.text ++ tail))) = .ok default.text mid ∧ mid <:+ tail ∧
      gapEnd mid = gapEnd tail := by
  obtain ⟨spaces, hspaces, c, hc, behind, rfl⟩ := htail
  have htext := bracketed_text hdefault
  rw [hbare] at htext
  have hexpression := expression_append htext (isBlank_head hdefault) default.isBlank_getLast default.text_ne hspaces hc behind
  refine ⟨c :: behind, firstOf_of_ok ((bind_of_ok (assign_append hdefault haround _)).trans hexpression),
    List.suffix_append spaces _, ?_⟩
  exact (gapEnd_append hspaces _).symm

/-- A comma that stands in no parenthesis cuts the value off. -/
theorem opt_initializer_ne (hbare : default.type.hasBareComma = true) (tail : Text) : ∃ found mid,
    opt Declarator.initializer (around ++ '=' :: (around ++ (default.text ++ tail))) = .ok found mid ∧
      found ≠ some default.text := by
  have htext := bracketed_text hdefault
  rw [hbare] at htext
  have hvalue : (do
      let _ ← spaced (char '=')
      expression [','] false : Parser Text) (around ++ '=' :: (around ++ (default.text ++ tail))) =
        expression [','] false (default.text ++ tail) := bind_of_ok (assign_append hdefault haround tail)
  cases hread : expression [','] false (default.text ++ tail) with
  | ok found mid =>
    refine ⟨some found, mid, opt_of_ok (firstOf_of_ok (hvalue.trans hread)), fun heq => ?_⟩
    exact expression_ne htext tail hread (Option.some.inj heq)
  | mismatch trace =>
    have hnext {c : Char} (hc : '=' ≠ c) : (gapEnd (around ++ '=' :: (around ++ (default.text ++ tail)))).head? ≠ some c := by
      rw [gapEnd_append_cons haround (by decide) (by decide)]
      exact head?_cons_ne hc _
    refine ⟨none, _, opt_of_mismatch (.firstOf_cons ⟨trace, hvalue.trans hread⟩ (.firstOf_cons ?_ (.firstOf_cons ?_ .firstOf_nil))),
      nofun⟩
    · exact Mismatches.map (.afterGap (block_of_ne (hnext (by decide))))
    · exact Mismatches.map (.afterGap (block_of_ne (hnext (by decide))))
  | failure trace =>
    unfold expression at hread
    dsimp only at hread
    split at hread <;> cases hread

end Initializer

end DefaultArgument

/-! ### Parameters -/

/-- A parameter with its default value, if it has one. -/
structure DefaultParam where
  type : CType
  name : Text
  default? : Option DefaultArgument

namespace DefaultParam

/-- The type and the name are written, and the default value makes an object of a named type. -/
structure IsWritten (param : DefaultParam) : Prop where
  type : Written param.type
  name : isDeclarable param.name = true
  default : ∀ default ∈ param.default?, Named default.type

/-- No comma stands in the default value outside of parentheses. -/
def IsWhole (param : DefaultParam) : Prop := ∀ default ∈ param.default?, default.type.hasBareComma = false

/-- The equals sign and the default value, with white space around the sign. -/
def assigned (around : Text) (param : DefaultParam) : Text :=
  match param.default? with
  | none => []
  | some default => around ++ '=' :: (around ++ default.text)

def text (layout : Layout) (around : Text) (param : DefaultParam) : Text :=
  Declaration.paramText layout (param.type, param.name) ++ param.assigned around

/-- The parameter that is declared. -/
def value (param : DefaultParam) : Param :=
  { Declaration.paramOf (param.type, param.name) with defaultValue := param.default?.map DefaultArgument.text }

/-- The text is not read as the parameter. -/
structure MisreadsParam (inner : Parser ParamList) (room : Nat) (text : Text) (param : Param) : Prop extends
    StartsParam text where
  ne_ok : ∀ tail, EndsParam tail → ∀ mid, Param.parserWith inner room (text ++ tail) ≠ .ok param mid

theorem endsWord_assigned {around : Text} (haround : IsSpaces around) (param : DefaultParam) (htail : EndsParam tail) :
    EndsWord (param.assigned around ++ tail) := by
  unfold assigned
  cases param.default? with
  | none => exact htail.endsWord
  | some default =>
    dsimp only
    rw [List.append_assoc, List.cons_append]
    exact endsWord_assign haround _

theorem gapEnd_assigned {around : Text} (haround : IsSpaces around) (param : DefaultParam) (htail : EndsParam tail) {c : Char}
    (hc : c ∈ ['[', ':', '(']) : (gapEnd (param.assigned around ++ tail)).head? ≠ some c := by
  unfold assigned
  cases param.default? with
  | none =>
    obtain ⟨closer, hcloser, hhead⟩ := htail.gapEnd
    have hclosers : ∀ closer ∈ [',', ')'], closer ∉ ['[', ':', '('] := by decide
    rw [List.nil_append, hhead]
    rintro ⟨⟩
    exact hclosers c hcloser hc
  | some default =>
    have hassign : ∀ c ∈ ['[', ':', '('], '=' ≠ c := by decide
    dsimp only
    rw [List.append_assoc, List.cons_append, gapEnd_append_cons haround (by decide) (by decide)]
    exact head?_cons_ne (hassign c hc) _

section Initial

variable {around : Text} (haround : IsSpaces around) {param : DefaultParam} (hparam : param.IsWritten)

include haround hparam

theorem opt_initializer_append (hwhole : param.IsWhole) (htail : EndsParam tail) : ∃ mid,
    opt Declarator.initializer (param.assigned around ++ tail) = .ok (param.default?.map DefaultArgument.text) mid ∧
      mid <:+ tail ∧ gapEnd mid = gapEnd tail := by
  unfold assigned
  cases hdefault : param.default? with
  | none =>
    obtain ⟨c, hc, hhead⟩ := htail.gapEnd
    have hends : ∀ c ∈ [',', ')'], c ∈ [',', ')', ';'] := by decide
    have hnone := initializer_of_ne (clauses_ne_of_end ⟨c, hends c hc, hhead⟩).2
    exact ⟨tail, opt_of_mismatch hnone, List.suffix_rfl, rfl⟩
  | some default =>
    obtain ⟨mid, hread, hsuffix, hgap⟩ := DefaultArgument.initializer_append (hparam.default default hdefault) haround
      (hwhole default hdefault) htail
    refine ⟨mid, ?_, hsuffix, hgap⟩
    dsimp only
    rw [List.append_assoc, List.cons_append, List.append_assoc]
    exact opt_of_ok hread

theorem opt_initializer_ne (hwhole : ¬param.IsWhole) (tail : Text) : ∃ found mid,
    opt Declarator.initializer (param.assigned around ++ tail) = .ok found mid ∧
      found ≠ param.default?.map DefaultArgument.text := by
  obtain ⟨default, hdefault, hbare⟩ : ∃ default, param.default? = some default ∧ default.type.hasBareComma = true := by
    simpa [IsWhole] using hwhole
  have hread := DefaultArgument.opt_initializer_ne (hparam.default default hdefault) haround hbare tail
  rw [assigned, hdefault]
  dsimp only
  rw [List.append_assoc, List.cons_append, List.append_assoc]
  exact hread

end Initial

section Item

variable (layout : Layout) {around : Text} (haround : IsSpaces around) {param : DefaultParam} (hparam : param.IsWritten)

include haround hparam

theorem startsParam_text : StartsParam (param.text layout around) where
  token tail htail := by
    rw [text, List.append_assoc]
    exact startsToken_paramText layout hparam.type hparam.name (endsWord_assigned haround param htail)
  not_void tail htail := by
    rw [text, List.append_assoc]
    exact void_paramText layout hparam.type hparam.name (endsWord_assigned haround param htail)

/-- The levels run out in a parameter if they do in its type. -/
theorem lacksParam_of_lacksType (inner : Parser ParamList) (hlacks : LacksType room param.type) :
    LacksParam inner room (param.text layout around) where
  toStartsParam := startsParam_text layout haround hparam
  lacks tail htail := by
    have hends := endsWord_assigned haround param htail
    have hcolon : (gapEnd (param.assigned around ++ tail)).head? ≠ some ':' := gapEnd_assigned haround param htail (by decide)
    rw [text, List.append_assoc, paramText_append]
    exact param_lacksLevel inner hparam.type hlacks (layout.declares hparam.name hends) hcolon

theorem misreadsParam_of_lacksType (inner : Parser ParamList) (hlacks : LacksType room param.type) :
    MisreadsParam inner room (param.text layout around) param.value where
  toStartsParam := startsParam_text layout haround hparam
  ne_ok tail htail mid hread := by
    obtain ⟨place, hfailure⟩ := (lacksParam_of_lacksType layout haround hparam inner hlacks).lacks tail htail
    rw [hfailure] at hread
    cases hread

variable {inner : Parser ParamList} (hinner : ∀ input : Text, input.head? ≠ some '(' → Mismatches inner input)

include hinner

/-- The initial value decides how the parameter is read. -/
theorem parserWith_text (hread : ReadsType room param.type) (htail : EndsParam tail) :
    Param.parserWith inner room (param.text layout around ++ tail) =
      (opt Declarator.initializer (param.assigned around ++ tail)).map fun defaultValue =>
        { Declaration.paramOf (param.type, param.name) with defaultValue } := by
  have hends := endsWord_assigned haround param htail
  have hnext {c : Char} (hc : c ∈ ['[', ':', '(']) : (gapEnd (param.assigned around ++ tail)).head? ≠ some c :=
    gapEnd_assigned haround param htail hc
  have hsizes : ∀ c ∈ ['[', ':'], c ∈ ['[', ':', '('] := by decide
  rw [text, List.append_assoc, paramText_append]
  exact param_apply hparam.type hread (layout.declares hparam.name hends) (fun c hc => hnext (hsizes c hc))
    (.afterGap (hinner _ (hnext (by decide))))

theorem readsParam_of_isWhole (hread : ReadsType room param.type) (hwhole : param.IsWhole) :
    ReadsParam inner room (param.text layout around) param.value where
  toStartsParam := startsParam_text layout haround hparam
  read tail htail := by
    obtain ⟨mid, hinitial, hsuffix, hgap⟩ := opt_initializer_append haround hparam hwhole htail
    refine ⟨mid, ?_, hsuffix, hgap⟩
    rw [parserWith_text layout haround hparam hinner hread htail, hinitial]
    rfl

theorem misreadsParam_of_not_isWhole (hwhole : ¬param.IsWhole) :
    MisreadsParam inner room (param.text layout around) param.value := by
  rcases hparam.type.readsType_or_lacksType room with hread | hlacks
  · refine ⟨startsParam_text layout haround hparam, fun tail htail mid hfound => ?_⟩
    obtain ⟨found, behind, hinitial, hne⟩ := opt_initializer_ne haround hparam hwhole tail
    rw [parserWith_text layout haround hparam hinner hread htail, hinitial] at hfound
    exact hne (congrArg Param.defaultValue (Outcome.ok.inj hfound).1)
  · exact misreadsParam_of_lacksType layout haround hparam inner hlacks

theorem readsParam_or_misreadsParam : ReadsParam inner room (param.text layout around) param.value ∨
    MisreadsParam inner room (param.text layout around) param.value := by
  by_cases hwhole : param.IsWhole
  · rcases hparam.type.readsType_or_lacksType room with hread | hlacks
    · exact .inl (readsParam_of_isWhole layout haround hparam hinner hread hwhole)
    · exact .inr (misreadsParam_of_lacksType layout haround hparam inner hlacks)
  · exact .inr (misreadsParam_of_not_isWhole layout haround hparam hinner hwhole)

end Item

/-! ### Lists -/

section List

variable (layout : Layout) {inner : Parser ParamList} {γ : Type} {text : γ → Text} {value : γ → Param} {item : γ} {items : List γ}
  {list : List Param} {mid : Text}

/-- If the item is read as it should be, then one behind it is not. -/
theorem exists_of_item (hitems : ∀ other ∈ item :: items, ReadsParam inner room (text other) (value other) ∨
      MisreadsParam inner room (text other) (value other))
    (hsome : ∃ other ∈ item :: items, MisreadsParam inner room (text other) (value other)) {rest behind : Text}
    (hread : Param.parserWith inner room (text item ++ layout.tailText text items rest) = .ok (value item) behind) :
    gapEnd behind = gapEnd (layout.tailText text items rest) ∧
      ∃ other ∈ items, MisreadsParam inner room (text other) (value other) := by
  have hends := endsParam_tailText layout text items rest
  have hitem : ¬MisreadsParam inner room (text item) (value item) := fun hmisreads => hmisreads.ne_ok _ hends behind hread
  obtain ⟨mid, hfound, -, hgap⟩ := ((hitems item List.mem_cons_self).resolve_right hitem).read _ hends
  obtain ⟨-, rfl⟩ := Outcome.ok.inj (hread.symm.trans hfound)
  obtain ⟨other, hother, hmisreads⟩ := hsome
  rcases List.mem_cons.1 hother with rfl | hother
  · exact absurd hmisreads hitem
  · exact ⟨hgap, other, hother, hmisreads⟩

/-- A list with an item that is read as another one is not read as it should be. -/
theorem sepTail_ne (hitems : ∀ other ∈ items, ReadsParam inner room (text other) (value other) ∨
      MisreadsParam inner room (text other) (value other))
    (hsome : ∃ other ∈ items, MisreadsParam inner room (text other) (value other))
    (hinput : gapEnd input = gapEnd (layout.tailText text items rest)) :
    sepTail (spaced (char ',')) (Param.parserWith inner room) input ≠ .ok (items.map value) mid := by
  induction items generalizing input with
  | nil =>
    obtain ⟨_, hmem, -⟩ := hsome
    cases hmem
  | cons item items ih =>
    intro hread
    have hitem : StartsParam (text item) := (hitems item List.mem_cons_self).elim (·.toStartsParam) (·.toStartsParam)
    rw [sepTail, comma_tailText layout (hitem.token _ (endsParam_tailText layout text items rest)) hinput] at hread
    dsimp only at hread
    cases hfound : Param.parserWith inner room (text item ++ layout.tailText text items rest) with
    | ok found behind =>
      rw [hfound] at hread
      dsimp only at hread
      split at hread
      · obtain ⟨others, hothers, heq⟩ := Outcome.map_eq_ok.1 hread
        obtain ⟨rfl, rfl⟩ := List.cons.inj heq
        obtain ⟨hgap, hlater⟩ := exists_of_item layout hitems hsome hfound
        exact ih (fun other hother => hitems other (List.mem_cons_of_mem item hother)) hlater hgap hothers
      · cases hread
    | mismatch | failure =>
      rw [hfound] at hread
      cases hread

theorem paramListBody_ne (hitems : ∀ other ∈ items, ReadsParam inner room (text other) (value other) ∨
      MisreadsParam inner room (text other) (value other))
    (hsome : ∃ other ∈ items, MisreadsParam inner room (text other) (value other)) {found : ParamList}
    (hread : paramListBody room inner ('(' :: (layout.pad ++ (layout.listText text items ++ ')' :: rest))) = .ok found mid) :
    found.params ≠ items.map value := by
  cases items with
  | nil =>
    obtain ⟨_, hmem, -⟩ := hsome
    cases hmem
  | cons item items =>
    have hitem : StartsParam (text item) := (hitems item List.mem_cons_self).elim (·.toStartsParam) (·.toStartsParam)
    rw [paramListBody, bind_of_ok (opener_listText layout hitem items rest)] at hread
    obtain ⟨params, _, hparams, hread⟩ := bind_eq_ok.1 hread
    obtain ⟨dots, _, -, hread⟩ := bind_eq_ok.1 hread
    obtain ⟨_, _, -, hread⟩ := bind_eq_ok.1 hread
    cases hread
    dsimp only
    rintro rfl
    obtain ⟨p, hp, hread⟩ := firstOf_eq_ok hparams
    simp only [List.mem_cons, List.not_mem_nil, or_false] at hp
    rcases hp with rfl | rfl
    · exact (hitem.not_void _ (endsParam_tailText layout text items rest)).ne_ok hread
    · cases hfirst : Param.parserWith inner room (text item ++ layout.tailText text items rest) with
      | ok first behind =>
        rw [sepBy_of_ok hfirst] at hread
        obtain ⟨others, hothers, heq⟩ := Outcome.map_eq_ok.1 hread
        obtain ⟨rfl, rfl⟩ := List.cons.inj heq
        obtain ⟨hgap, hlater⟩ := exists_of_item layout hitems hsome hfirst
        exact sepTail_ne layout (fun other hother => hitems other (List.mem_cons_of_mem item hother)) hlater hgap hothers
      | mismatch | failure =>
        rw [sepBy, hfirst] at hread
        cases hread

end List

/-! ### Functions -/

/-- A function whose parameters may have default values, up to its semicolon. -/
def functionText (layout : Layout) (around : Text) (type : CType) (name : Text) (params : List DefaultParam) (rest : Text) :
    Text :=
  render type ++ (layout.blank ++ (name ++ (layout.pad ++ '(' :: (layout.pad ++
    (layout.listText (DefaultParam.text layout around) params ++ ')' :: (layout.pad ++ ';' :: rest))))))

/-- The function that is declared. -/
def functionOf (type : CType) (name : Text) (params : List DefaultParam) : FunctionDecl :=
  { Declaration.functionOf type name [] with params := params.map value }

theorem foldl_apply_params (declared : FunctionDecl) (qualifiers : List FunctionDecl.Qualifier) :
    (qualifiers.foldl FunctionDecl.Qualifier.apply declared).params = declared.params := by
  induction qualifiers generalizing declared with
  | nil => rfl
  | cons qualifier qualifiers ih =>
    rw [List.foldl_cons, ih]
    cases qualifier <;> rfl

section Function

variable (layout : Layout) {around : Text} (haround : IsSpaces around) {params : List DefaultParam} (htype : Written type)
  (hname : isDeclarable name = true) (hparams : ∀ param ∈ params, param.IsWritten)

include haround htype hname hparams

theorem function_ne_default (hsome : ∃ param ∈ params, ¬param.IsWhole) (rest mid : Text) :
    function room (functionText layout around type name params rest) ≠ .ok (functionOf type name params) mid := by
  intro hfound
  rw [functionText] at hfound
  rcases htype.readsType_or_lacksType room with hread | hlacks
  · rw [function_eq layout htype hname hread] at hfound
    obtain ⟨list, behind, hlist, hfound⟩ := bind_eq_ok.1 hfound
    obtain ⟨qualifiers, _, -, hfound⟩ := bind_eq_ok.1 hfound
    obtain ⟨definition, _, -, hfound⟩ := bind_eq_ok.1 hfound
    obtain ⟨hasBody, _, -, hfound⟩ := bind_eq_ok.1 hfound
    have hvalues : list.params = params.map value := by
      have hfound_params := congrArg FunctionDecl.params (Outcome.ok.inj hfound).1
      rwa [foldl_apply_params] at hfound_params
    rw [afterGap_apply, gapEnd_append_cons layout.isSpaces_pad (by decide) (by decide)] at hlist
    obtain ⟨inner, hinner, heq⟩ := exists_paramListBody room ('(' :: (layout.pad ++
      (layout.listText (DefaultParam.text layout around) params ++ ')' :: (layout.pad ++ ';' :: rest))))
    rw [heq] at hlist
    obtain ⟨param, hparam, hwhole⟩ := hsome
    exact paramListBody_ne layout (fun other hother => readsParam_or_misreadsParam layout haround (hparams other hother) hinner)
      ⟨param, hparam, misreadsParam_of_not_isWhole layout haround (hparams param hparam) hinner hwhole⟩ hlist hvalues
  · obtain ⟨place, hfailure⟩ := function_result_lacksLevel layout htype hname hlacks
      (layout.pad ++ (layout.listText (DefaultParam.text layout around) params ++ ')' :: (layout.pad ++ ';' :: rest)))
    rw [hfailure] at hfound
    cases hfound

/-- The levels run out in the result or in a parameter. -/
theorem function_lacksLevel_default (hwhole : ∀ param ∈ params, param.IsWhole)
    (hlacks : LacksType room type ∨ ReadsType room type ∧ ¬∀ param ∈ params, ReadsType room param.type) (rest : Text) :
    LacksLevel (function room) (functionText layout around type name params rest) := by
  rw [functionText]
  rcases hlacks with hlacks | ⟨hread, hlacks⟩
  · exact function_result_lacksLevel layout htype hname hlacks _
  · have hcases : ∀ param ∈ params, ReadsType room param.type ∨ LacksType room param.type :=
      fun param hparam => (hparams param hparam).type.readsType_or_lacksType room
    obtain ⟨before, first, after, rfl, hbefore, hfirst⟩ := (items_cases hcases).resolve_left hlacks
    have hmem {param : DefaultParam} (hparam : param ∈ before) : param ∈ before ++ first :: after := List.mem_append_left _ hparam
    refine function_params_lacksLevel layout htype hname hread (paramList_lacksLevel layout value (fun inner hinner => ⟨?_, ?_⟩) _)
    · intro param hparam
      exact readsParam_of_isWhole layout haround (hparams param (hmem hparam)) hinner (hbefore param hparam)
        (hwhole param (hmem hparam))
    · exact lacksParam_of_lacksType layout haround (hparams first (List.mem_append_right _ List.mem_cons_self)) inner hfirst

omit haround htype hname in
theorem le_deepest_of_not_readsType (hreads : ¬∀ param ∈ params, ReadsType room param.type) :
    room ≤ CType.deepest (params.map DefaultParam.type) := by
  obtain ⟨param, hparam, hnot⟩ : ∃ param ∈ params, ¬ReadsType room param.type := by simpa using hreads
  have hlacks := ((hparams param hparam).type.readsType_or_lacksType room).resolve_left hnot
  have hlists : listDepth param.type ≤ CType.deepest (params.map DefaultParam.type) :=
    listDepth_le_deepest (List.mem_map_of_mem hparam)
  exact Nat.le_trans (hlacks.le_listDepth (hparams param hparam).type) hlists

variable (hread : ReadsType room type) (hreads : ∀ param ∈ params, ReadsType room param.type)

include hread hreads

theorem function_append_default (hwhole : ∀ param ∈ params, param.IsWhole) (rest : Text) :
    function room (functionText layout around type name params rest) = .ok (functionOf type name params) rest := by
  refine function_of_paramList layout htype hname hread (paramList_items layout (fun inner hinner param hparam => ?_) _)
  exact readsParam_of_isWhole layout haround (hparams param hparam) hinner (hreads param hparam) (hwhole param hparam)

theorem scope_function_default (hwhole : ∀ param ∈ params, param.IsWhole) :
    scope (room + 1) false (functionText layout around type name params []) =
      .ok { functions := [functionOf type name params] } [] := by
  have hread := function_append_default layout haround htype hname hparams hread hreads hwhole []
  rw [functionText] at hread ⊢
  generalize layout.pad ++ (layout.listText (DefaultParam.text layout around) params ++ ')' :: (layout.pad ++ [';'])) = list
    at hread ⊢
  have hends : EndsType (layout.pad ++ '(' :: list) := endsType_append layout.isSpaces_pad (by decide) list
  have hword : EndsWord (layout.blank ++ (name ++ (layout.pad ++ '(' :: list))) := (layout.declares hname hends.word).endsType.word
  have hstarts := startsMember_function layout htype hname list
  generalize layout.blank ++ (name ++ (layout.pad ++ '(' :: list)) = behind at hread hword hstarts ⊢
  have hrecord : Mismatches (record room) (render type ++ behind) := record_of_front room hword (htype.front behind)
  have hnone : IsSpaces [] := List.forall_mem_nil _
  have hitem : Scope.itemWith room (scope room true) (render type ++ behind) =
      .ok (.function (functionOf type name params)) [] := by
    change Scope.itemWith room (scope room true) ([] ++ (render type ++ behind)) = _
    rw [Scope.itemWith_of_startsMember hnone hstarts, firstOf_of_mismatch hrecord.map]
    exact firstOf_of_ok (map_of_ok hread)
  have hline : StartsLine (render type ++ behind) := (htype.front behind).head
  have hstop : Mismatches (Scope.scopeEnd false) (render type ++ behind) := by
    have hempty : Mismatches (Scope.scopeEnd false) ([] ++ (render type ++ behind)) := Scope.scopeEnd_of_startsLine false hnone hline
    exact hempty
  have hlength : ([] : Text).length < (render type ++ behind).length := by
    obtain ⟨c, text, htext, -⟩ := hline
    rw [htext]
    exact Nat.zero_lt_succ _
  have hend : Scope.scopeEnd false [] = .ok () [] := rfl
  have hitems : manyTill (Scope.itemWith room (scope room true)) (Scope.scopeEnd false) (render type ++ behind) =
      .ok [.function (functionOf type name params)] [] := by
    rw [manyTill_of_ok hstop hitem hlength, manyTill_of_stop hend]
    rfl
  exact map_of_ok hitems

end Function

end DefaultParam

open DefaultParam

/-- A function is read back from its text, and listed as a function by a scope, if no default value has a comma that stands in
no parenthesis, or its types are nested too deep and the levels run out. If a default value has such a comma, the function is
not read back. -/
theorem function_defaults (layout : Layout) {around : Text} (haround : IsSpaces around) {params : List DefaultParam}
    (htype : Written type) (hname : isDeclarable name = true) (hparams : ∀ param ∈ params, param.IsWritten) (room : Nat) :
    ((∀ param ∈ params, param.IsWhole) →
      (∀ rest, function room (functionText layout around type name params rest) = .ok (functionOf type name params) rest) ∧
        scope (room + 1) false (functionText layout around type name params []) =
          .ok { functions := [functionOf type name params] } [] ∨
      room ≤ max (listDepth type) (CType.deepest (params.map DefaultParam.type)) ∧
        ∀ rest, LacksLevel (function room) (functionText layout around type name params rest)) ∧
    ((∃ param ∈ params, ¬param.IsWhole) → ∀ rest mid,
      function room (functionText layout around type name params rest) ≠ .ok (functionOf type name params) mid) := by
  refine ⟨fun hwhole => ?_, fun hsome => function_ne_default layout haround htype hname hparams hsome⟩
  have hlacks (hcause : LacksType room type ∨ ReadsType room type ∧ ¬∀ param ∈ params, ReadsType room param.type) (rest : Text) :
      LacksLevel (function room) (functionText layout around type name params rest) :=
    function_lacksLevel_default layout haround htype hname hparams hwhole hcause rest
  rcases htype.readsType_or_lacksType room with hread | htype_lacks
  · by_cases hreads : ∀ param ∈ params, ReadsType room param.type
    · exact .inl ⟨function_append_default layout haround htype hname hparams hread hreads hwhole,
        scope_function_default layout haround htype hname hparams hread hreads hwhole⟩
    · exact .inr ⟨Nat.le_trans (le_deepest_of_not_readsType hparams hreads) (Nat.le_max_right _ _), hlacks (.inr ⟨hread, hreads⟩)⟩
  · exact .inr ⟨Nat.le_trans (htype_lacks.le_listDepth htype) (Nat.le_max_left _ _), hlacks (.inl htype_lacks)⟩

/-- A parameter whose default value has so many template arguments. -/
def templateParam (isBraced : Bool) (count : Nat) : DefaultParam :=
  ⟨.path [['A']], ['a'], some ⟨.generic (.path [['B']]) (List.replicate count (.path ["int".toList])), isBraced⟩⟩

theorem isWritten_templateParam (isBraced : Bool) (count : Nat) : (templateParam isBraced count).IsWritten where
  type := .named (.path (by decide))
  name := show isDeclarable ['a'] = true by decide
  default := by
    rintro _ ⟨⟩
    refine .generic (by decide) fun arg harg => ?_
    obtain ⟨-, rfl⟩ := List.mem_replicate.1 harg
    exact .type (.named (.path (by decide)))

/-- The value `B<int>{}` is read back, and the value `B<int, int>()` behind it is not. -/
theorem function_defaults_template :
    function nestingLimit "void f(A a = B<int>\x7b\x7d);".toList = .ok (functionOf (.path ["void".toList]) ['f'] [templateParam true 1]) [] ∧
    function nestingLimit "void f(A a = B<int>\x7b\x7d, A a = B<int, int>());".toList ≠
      .ok (functionOf (.path ["void".toList]) ['f'] [templateParam true 1, templateParam false 2]) [] := by
  have hspaces : IsSpaces [' '] := by decide
  have hwhole : ∀ param ∈ [templateParam true 1], param.IsWhole := by
    intro param hparam
    obtain rfl := List.mem_singleton.1 hparam
    rintro _ ⟨⟩
    rfl
  have hcomma : ∃ param ∈ [templateParam true 1, templateParam false 2], ¬param.IsWhole :=
    ⟨templateParam false 2, by simp, fun hwhole => Bool.noConfusion (hwhole _ rfl)⟩
  have hwritten_whole : ∀ param ∈ [templateParam true 1], param.IsWritten := by simp [isWritten_templateParam]
  have hwritten : ∀ param ∈ [templateParam true 1, templateParam false 2], param.IsWritten := by
    simp [isWritten_templateParam]
  have htype : Written (.path ["void".toList]) := .named (.path (by decide))
  have hname : isDeclarable ['f'] = true := by decide
  have hread := (function_defaults .compact hspaces htype hname hwritten_whole nestingLimit).1 hwhole
  have hmisread := (function_defaults .compact hspaces htype hname hwritten nestingLimit).2 hcomma
  rcases hread with hread | ⟨hdepth, -⟩
  · exact ⟨hread.1 [], hmisread [] []⟩
  · exact absurd hdepth (by decide)

set_option maxRecDepth 20000 in
/-- A function whose default value has a comma between template arguments is no function, and a scope lists it as a variable
with an initial value in parentheses. -/
theorem function_defaults_comma :
    let source := "void f(A a = B<int, int>());".toList
    functionText .compact [' '] (.path ["void".toList]) ['f'] [templateParam false 2] [] = source ∧ (templateParam false 2).IsWritten ∧
      (∀ found mid, function nestingLimit source ≠ .ok found mid) ∧
      ∃ contents, scope nestingLimit false source = .ok contents [] ∧ contents.functions = [] ∧
        contents.vars.map (fun declared => (declared.name, declared.defaultValue)) =
          [(['f'], some "A a = B<int, int>()".toList)] := by
  refine ⟨rfl, isWritten_templateParam false 2, fun found mid hread => ?_, ?_⟩
  · have hnone : (function nestingLimit "void f(A a = B<int, int>());".toList).map (fun _ => ()) =
        .mismatch [⟨">());".toList, .char ')'⟩] := by decide +kernel
    rw [hread] at hnone
    cases hnone
  · obtain ⟨contents, hread, hview⟩ := Outcome.whole?_eq_some.1
      (show (scope nestingLimit false "void f(A a = B<int, int>());".toList).whole? (fun contents =>
          (contents.functions.isEmpty, contents.vars.map fun declared => (declared.name, declared.defaultValue))) =
        some (true, [(['f'], some "A a = B<int, int>()".toList)]) by decide +kernel)
    obtain ⟨hfunctions, hvars⟩ := Prod.mk.inj hview
    exact ⟨contents, hread, List.isEmpty_iff.1 hfunctions, hvars⟩

end HeaderOutline
