import HeaderOutline.Proofs.Grammar
import HeaderOutline.Proofs.Source.Name
/-!
# Variables and functions as they are written

A variable is read back from its type and name, and a function from its result, name and parameters, whatever
follows the semicolon.
-/

namespace HeaderOutline

open HeaderOutline.Parser HeaderOutline.CType

variable {room : Nat} {input rest tail name : Text} {type : CType}

/-! ### Declarators -/

theorem spaced_char_of_ne {c : Char} (hinput : (gapEnd input).head? ≠ some c) : Mismatches (spaced (char c)) input :=
  .spaced (char_of_ne hinput)

theorem suffixed_of_ne (type : CType) (hmark : ∀ c ∈ ['*', '&', '.'], (gapEnd rest).head? ≠ some c)
    (hqualifier : ∀ word ∈ ["const", "volatile"], headWord (gapEnd rest) ≠ word.toList) : suffixed type rest = .ok type rest :=
  bind_of_ok (many_of_mismatch (.afterGap (Suffix.parser_of_ne hmark hqualifier)))

theorem suffixed_of_endsType (type : CType) (hrest : EndsType rest) : suffixed type rest = .ok type rest :=
  suffixed_of_ne type hrest.mark hrest.qualifier

/-- Neither array sizes nor a bit width comes next. -/
theorem declaratorSizes_of_ne (htail : ∀ c ∈ ['[', ':'], (gapEnd tail).head? ≠ some c) :
    Declarator.arrayDimensions tail = .ok [] tail ∧ Mismatches Declarator.bitWidth tail :=
  ⟨many_of_mismatch (.afterGap (.bind (char_of_ne (htail '[' (by decide))))),
    .bind (spaced_char_of_ne (htail ':' (by decide)))⟩

theorem initializer_of_ne (htail : ∀ c ∈ ['=', '\x7b', '('], (gapEnd tail).head? ≠ some c) :
    Mismatches Declarator.initializer tail := by
  refine .firstOf_cons ?_ (.firstOf_cons ?_ (.firstOf_cons ?_ .firstOf_nil))
  · exact .bind (spaced_char_of_ne (htail '=' (by decide)))
  · exact Mismatches.map (.afterGap (block_of_ne (htail '\x7b' (by decide))))
  · exact Mismatches.map (.afterGap (block_of_ne (htail '(' (by decide))))

/-- What ends a declarator is no clause of it. -/
theorem clauses_ne_of_end (htail : ∃ c ∈ [',', ')', ';'], (gapEnd tail).head? = some c) :
    (∀ d ∈ ['[', ':'], (gapEnd tail).head? ≠ some d) ∧ ∀ d ∈ ['=', '\x7b', '('], (gapEnd tail).head? ≠ some d := by
  obtain ⟨c, hc, htail⟩ := htail
  have hends : (∀ d ∈ ['[', ':'], d ∉ [',', ')', ';']) ∧ ∀ d ∈ ['=', '\x7b', '('], d ∉ [',', ')', ';'] := by decide
  rw [htail]
  refine ⟨?_, ?_⟩
  · rintro _ hd ⟨⟩
    exact hends.1 _ hd hc
  · rintro _ hd ⟨⟩
    exact hends.2 _ hd hc

/-- Neither a name nor a function pointer comes next. -/
theorem declaratorName_of_ne (paramList : Parser ParamList) (type : CType) (hcall : (gapEnd rest).head? ≠ some '(')
    (hname : Mismatches plainName (gapEnd rest)) :
    firstOf [Declarator.functionPointer paramList type, (fun name => (name, type)) <$> opt (afterGap plainName)] rest =
      .ok (none, type) rest := by
  have hpointer : Mismatches (Declarator.functionPointer paramList type) rest := .bind (spaced_char_of_ne hcall)
  exact (firstOf_of_mismatch hpointer).trans (firstOf_of_ok (map_of_ok (opt_of_mismatch hname.afterGap)))

/-- A declarator that is a name, with or without an initial value. -/
theorem declarator_apply {paramList : Parser ParamList} (hrest : Declares rest name tail)
    (htail : ∀ c ∈ ['[', ':'], (gapEnd tail).head? ≠ some c) (hparams : Mismatches (afterGap paramList) tail) :
    Declarator.parserWith paramList type false rest = (opt Declarator.initializer tail).map fun defaultValue =>
      { name := some name, type, bitfield := none, defaultValue } := by
  obtain ⟨hdimensions, hbitfield⟩ := declaratorSizes_of_ne htail
  have hsuffixes := suffixed_of_endsType type hrest.endsType
  have hpointer : Mismatches (Declarator.functionPointer paramList type) rest :=
    .bind (spaced_char_of_ne (hrest.head_ne (by decide)))
  have hname : opt (afterGap plainName) rest = .ok (some name) tail := by
    refine opt_of_ok ?_
    rw [afterGap_apply, hrest.gapEnd]
    exact plainName_append hrest.isPlainName hrest.tail
  have hchoice : firstOf [Declarator.functionPointer paramList type, (fun name => (name, type)) <$> opt (afterGap plainName)]
      rest = .ok (some name, type) tail :=
    (firstOf_of_mismatch hpointer).trans (firstOf_of_ok (map_of_ok hname))
  rw [Declarator.parserWith, bind_of_ok hsuffixes, bind_of_ok hchoice]
  dsimp only
  rw [Bool.false_and, if_neg Bool.false_ne_true, bind_of_ok (opt_of_mismatch hparams)]
  dsimp only
  rw [bind_of_ok hdimensions, bind_of_ok (opt_of_mismatch hbitfield), ← map_apply]
  rfl

/-- A comma, parenthesis or semicolon follows a declarator that is no more than a name. -/
theorem declarator_append {paramList : Parser ParamList} (hrest : Declares rest name tail)
    (htail : ∃ c ∈ [',', ')', ';'], (gapEnd tail).head? = some c) (hparams : Mismatches (afterGap paramList) tail) :
    Declarator.parserWith paramList type false rest =
      .ok { name := some name, type, bitfield := none, defaultValue := none } tail := by
  obtain ⟨hsizes, hinitial⟩ := clauses_ne_of_end htail
  rw [declarator_apply hrest hsizes hparams, opt_of_mismatch (initializer_of_ne hinitial)]
  rfl

theorem paramList_of_ne (hinput : input.head? ≠ some '(') : Mismatches (paramList room) input := by
  rw [Mismatches, paramList, recurse_apply]
  exact Mismatches.bind (.beforeGap (char_of_ne hinput))

/-! ### Variables -/

theorem modifier_of_not_reserved {word : Text} (hword : isReserved word = false) :
    VariableModifier.ofWord? word = none := by
  have hne {reserved : String} (hreserved : reserved ∈ reservedWords) : word ≠ reserved.toList := by
    rintro rfl
    exact Bool.eq_false_iff.1 hword (List.any_eq_true.2 ⟨reserved, hreserved, beq_self_eq_true _⟩)
  unfold VariableModifier.ofWord?
  rw [if_neg (hne (by decide)), if_neg (hne (by decide)), if_neg (not_or.2 ⟨hne (by decide), hne (by decide)⟩),
    if_neg (hne (by decide)), if_neg (hne (by decide)), if_neg (hne (by decide))]

theorem specifier_of_ne (hwords : ∀ word ∈ ["const", "volatile", "extern"], headWord input ≠ word.toList)
    (hmodifier : VariableModifier.ofWord? (headWord input) = none) : Mismatches Variable.Specifier.parser input := by
  have hidentifier : Mismatches (identifier.filterMap VariableModifier.ofWord?) input := by
    rcases identifier_cases input with hword | hword
    · exact hword.filterMap
    · exact .filterMap_of_ok hword hmodifier
  refine .beforeGap (.firstOf_cons ?_ (.firstOf_cons ?_ (.firstOf_cons ?_ (.firstOf_cons ?_ .firstOf_nil))))
  · exact (keyword_of_ne (by decide) (hwords "const" (by decide))).map
  · exact (keyword_of_ne (by decide) (hwords "volatile" (by decide))).map
  · exact .bind (keyword_of_ne (by decide) (hwords "extern" (by decide)))
  · exact hidentifier.map

theorem specifier_of_startsName (hinput : StartsName input) : Mismatches Variable.Specifier.parser input := by
  have hreserved : ∀ word ∈ ["const", "volatile", "extern"], word ∈ reservedWords := by decide
  exact specifier_of_ne (fun word hword => hinput.ne (hreserved word hword)) (modifier_of_not_reserved hinput.word)

theorem specifiers_append (isConst : Bool) (hinput : StartsName input) :
    many Variable.Specifier.parser (constText isConst ++ input) = .ok (if isConst then [.const] else []) input := by
  have hstop : many Variable.Specifier.parser input = .ok [] input := many_of_mismatch (specifier_of_startsName hinput)
  cases isConst with
  | false => exact hstop
  | true =>
    have hends : EndsWord ([' '] ++ input) := endsWord_cons (by decide) input
    have hconst : Variable.Specifier.parser ("const".toList ++ ([' '] ++ input)) = .ok .const input := by
      rw [Variable.Specifier.parser, beforeGap_of_ok (firstOf_of_ok (map_of_ok (keyword_append "const" hends))),
        gapEnd_append_token isSpaces_one hinput.token]
    rw [constText, if_pos rfl, List.append_assoc, many_of_ok hconst, hstop]
    · rfl
    · simp only [List.length_append, List.length_singleton]
      omega

/-- A variable of a type and a name, up to its semicolon. -/
theorem variableStatement_append (htype : Written type) (hdepth : listDepth type < room)
    (hrest : Declares rest name tail) (htail : gapEnd tail = ';' :: input) :
    variableStatement room (render type ++ rest) = .ok [Declaration.variableOf type name] input := by
  have hne {c : Char} (hc : c ≠ ';') : (gapEnd tail).head? ≠ some c := by
    rw [htail]
    exact head?_cons_ne hc.symm input
  have hstarts := startsMember_of_declares hrest (hne (by decide)) (htype.front rest)
  have hhead : Mismatches (templateHead room) (render type ++ rest) :=
    templateHead_of_ne (hstarts.words "template" (by decide))
  obtain ⟨base, htext, hbase, hread⟩ := htype.unqualified (templateArgs_append room) hdepth hrest.endsType
  have hspecifiers := specifiers_append (beginsConst type) hbase
  rw [← htext] at hspecifiers
  have hdeclarator : declarator room type false rest =
      .ok { name := some name, type, bitfield := none, defaultValue := none } tail :=
    declarator_append hrest ⟨';', by decide, by rw [htail]; rfl⟩ (.afterGap (paramList_of_ne (hne (by decide))))
  have hothers : Mismatches (do
      let _ ← spaced (char ',')
      declarator room type.declaredBase false) tail := .bind (spaced_char_of_ne (hne (by decide)))
  have hsemicolon : afterGap (char ';') tail = .ok ';' input := afterGap_char htail
  have hconst (isConst : Bool) : (if isConst then [Variable.Specifier.const] else []).contains .const = isConst := by
    cases isConst <;> rfl
  have hmodifiers (isConst : Bool) :
      (if isConst then [Variable.Specifier.const] else []).filterMap Variable.Specifier.modifier? = [] := by
    cases isConst <;> rfl
  rw [variableStatement, bind_of_ok (leadingComment_of_startsToken hstarts.token), bind_of_ok (opt_of_mismatch hhead),
    bind_of_ok hstarts.attributes, bind_of_ok hspecifiers, hconst, unqualifiedType,
    bind_of_ok hread, bind_of_ok hdeclarator]
  dsimp only
  rw [Option.isNone_some, Bool.false_and, if_neg Bool.false_ne_true, bind_of_ok (many_of_mismatch hothers),
    bind_of_ok hsemicolon, hmodifiers]
  rfl

/-! ### Parameters -/

/-- A comma or the closing parenthesis comes next, possibly behind white space. -/
def EndsParam (tail : Text) : Prop :=
  ∃ spaces, IsSpaces spaces ∧ ∃ c ∈ [',', ')'], ∃ rest, tail = spaces ++ c :: rest

theorem EndsParam.gapEnd (htail : EndsParam tail) : ∃ c ∈ [',', ')'], (gapEnd tail).head? = some c := by
  obtain ⟨spaces, hspaces, c, hc, rest, rfl⟩ := htail
  have hclosers : ∀ c ∈ [',', ')'], isSpace c = false ∧ c ≠ '/' := by decide
  refine ⟨c, hc, ?_⟩
  rw [gapEnd_append_token hspaces (startsToken_cons (hclosers c hc).1 (hclosers c hc).2 rest)]
  rfl

theorem EndsParam.endsWord (htail : EndsParam tail) : EndsWord tail := by
  obtain ⟨spaces, hspaces, c, hc, rest, rfl⟩ := htail
  have hclosers : ∀ c ∈ [',', ')'], c ∈ [',', '>', '(', ')', ';', '\x7b'] := by decide
  exact (endsType_append hspaces (hclosers c hc) rest).word

/-- A parameter of a type and a name, with or without a default value. -/
theorem param_apply {paramList : Parser ParamList} (htype : Written type) (hread : ReadsType room type)
    (hrest : Declares rest name tail) (htail : ∀ c ∈ ['[', ':'], (gapEnd tail).head? ≠ some c)
    (hparams : Mismatches (afterGap paramList) tail) :
    Param.parserWith paramList room (render type ++ rest) = (opt Declarator.initializer tail).map fun defaultValue =>
      { Declaration.paramOf (type, name) with defaultValue } := by
  have hstarts := startsMember_of_declares hrest (htail ':' (by decide)) (htype.front rest)
  obtain ⟨base, hqualifiers, hqualified⟩ := htype.qualified_eq hrest.endsType.word
  have hunqualified := (hqualified (templateArgs room)).symm.trans (hread rest hrest.endsType)
  rw [Param.parserWith, bind_of_ok hstarts.attributes, bind_of_ok hqualifiers, unqualifiedType, bind_of_ok hunqualified,
    bind_apply, declarator_apply hrest htail hparams]
  cases opt Declarator.initializer tail <;> rfl

/-- A parameter of a type and a name, in front of a comma or the end of the list. -/
theorem param_append {paramList : Parser ParamList} (htype : Written type) (hread : ReadsType room type)
    (hrest : Declares rest name tail) (htail : ∃ c ∈ [',', ')'], (gapEnd tail).head? = some c)
    (hparams : Mismatches (afterGap paramList) tail) :
    Param.parserWith paramList room (render type ++ rest) = .ok (Declaration.paramOf (type, name)) tail := by
  obtain ⟨c, hc, hhead⟩ := htail
  have hends : ∀ c ∈ [',', ')'], c ∈ [',', ')', ';'] := by decide
  obtain ⟨hsizes, hinitial⟩ := clauses_ne_of_end ⟨c, hends c hc, hhead⟩
  rw [param_apply htype hread hrest hsizes hparams, opt_of_mismatch (initializer_of_ne hinitial)]
  rfl

/-- The body of the parser for parameter lists. -/
def paramListBody (room : Nat) (inner : Parser ParamList) : Parser ParamList := do
  let _ ← beforeGap (char '(')
  let params ← firstOf
    [(do
      let _ ← keyword "void"
      let _ ← lookahead (afterGap (char ')'))
      pure []),
     sepBy (spaced (char ',')) (Param.parserWith inner room)]
  let dots ← opt do
    let _ ← opt (spaced (char ','))
    afterGap (literal "...")
  let _ ← afterGap (char ')')
  pure { params, isVariadic := dots.isSome }

theorem paramList_eq (room : Nat) : paramList room = recurse (paramListBody room) := rfl

section ParamList

variable (layout : Layout) {inner : Parser ParamList} {params : List (CType × Text)}

/-- Where no type begins, a list ends before it has begun. -/
theorem params_of_startsNoType (hbracket : input.head? ≠ some '[') (hinput : StartsNoType input) :
    sepBy (spaced (char ',')) (Param.parserWith inner room) input = .ok [] input := by
  have hcalls : ∀ word ∈ callWords, isIdentifier word.toList = true := by decide
  have hattributes : attributes input = .ok () input :=
    attributes_of_uncalled hbracket fun word hword heq => absurd heq (hinput.headWord_ne (hcalls word hword))
  exact sepBy_of_mismatch (.bind_of_ok hattributes (.bind_of_ok hinput.leadingQualifiers (hinput.unqualified false).bind))

/-- The `void` of an empty list. -/
def voidList : Parser (List Param) := do
  let _ ← keyword "void"
  let _ ← lookahead (afterGap (char ')'))
  pure []

/-- A parameter is not taken for the `void` of an empty list. -/
theorem void_of_front {depth : Nat} (hfront : Front depth rest input) (hrest : EndsWord rest)
    (hcloser : (gapEnd rest).head? ≠ some ')') : Mismatches voidList input := by
  by_cases hvoid : headWord input = "void".toList
  · have hbehind := hfront.behind_ne hrest hvoid (by decide) (c := ')') (by decide) hcloser
    exact .bind_of_ok (keyword_of_eq hvoid) (.bind (.lookahead (.afterGap (char_of_ne hbehind))))
  · exact .bind (keyword_of_ne (by decide) hvoid)

theorem endsParam_closer (rest : Text) : EndsParam (layout.pad ++ ')' :: rest) :=
  ⟨layout.pad, layout.isSpaces_pad, ')', by decide, rest, rfl⟩

theorem endsParam_comma (tail : Text) : EndsParam (layout.pad ++ ',' :: layout.comma ++ tail) :=
  ⟨layout.pad, layout.isSpaces_pad, ',', by decide, layout.comma ++ tail, by rw [List.append_assoc]; rfl⟩

/-- A list goes on with the text, and is not just `void`. -/
structure StartsParam (text : Text) : Prop where
  token : ∀ tail, EndsParam tail → StartsToken (text ++ tail)
  not_void : ∀ tail, EndsParam tail → Mismatches voidList (text ++ tail)

/-- The text is read as a parameter wherever a list may go on, up to the white space behind it. -/
structure ReadsParam (inner : Parser ParamList) (room : Nat) (text : Text) (param : Param) : Prop extends StartsParam text where
  read : ∀ tail, EndsParam tail → ∃ mid, Param.parserWith inner room (text ++ tail) = .ok param mid ∧ mid <:+ tail ∧
    gapEnd mid = gapEnd tail

section Items

variable {γ : Type} {text : γ → Text} {value : γ → Param} {items : List γ}

/-- Items with commas between them, up to a closing parenthesis. -/
def Layout.listText (text : γ → Text) : List γ → Text
  | [] => []
  | item :: items => text item ++ items.flatMap (fun next => layout.pad ++ ',' :: layout.comma ++ text next) ++ layout.pad

/-- The items behind the first one, each behind its comma, up to the closing parenthesis. -/
def Layout.tailText (text : γ → Text) (items : List γ) (rest : Text) : Text :=
  items.flatMap (fun next => layout.pad ++ ',' :: layout.comma ++ text next) ++ (layout.pad ++ ')' :: rest)

theorem endsParam_tailText (text : γ → Text) (items : List γ) (rest : Text) : EndsParam (layout.tailText text items rest) :=
  follows_flatMap text (endsParam_comma layout) (endsParam_closer layout rest)

theorem gapEnd_tailText_cons (item : γ) (items : List γ) (rest : Text) : gapEnd (layout.tailText text (item :: items) rest) =
    ',' :: (layout.comma ++ (text item ++ layout.tailText text items rest)) := by
  rw [Layout.tailText, List.flatMap_cons, List.append_assoc, List.append_assoc, List.append_assoc, List.cons_append,
    gapEnd_append_cons layout.isSpaces_pad (by decide) (by decide)]
  rfl

theorem comma_tailText {item : γ} (htoken : StartsToken (text item ++ layout.tailText text items rest))
    (hinput : gapEnd input = gapEnd (layout.tailText text (item :: items) rest)) :
    spaced (char ',') input = .ok ',' (text item ++ layout.tailText text items rest) := by
  rw [gapEnd_tailText_cons] at hinput
  rw [spaced_of_ok (by rw [hinput]; exact char_cons ',' _), gapEnd_append_token layout.isSpaces_comma htoken]

/-- A comma and the item behind it are progress. -/
theorem length_lt_of_comma {item : γ} {mid : Text} (hinput : gapEnd input = gapEnd (layout.tailText text (item :: items) rest))
    (hmid : mid <:+ layout.tailText text items rest) : mid.length < input.length := by
  have hinput_length : (gapEnd input).length ≤ input.length := (gapEnd_suffix input).length_le
  have hmid_length := hmid.length_le
  rw [hinput, gapEnd_tailText_cons] at hinput_length
  simp only [List.length_append, List.length_cons] at hinput_length
  omega

theorem sepTail_items (hitems : ∀ item ∈ items, ReadsParam inner room (text item) (value item))
    (hinput : gapEnd input = gapEnd (layout.tailText text items rest)) :
    ∃ mid, sepTail (spaced (char ',')) (Param.parserWith inner room) input = .ok (items.map value) mid ∧
      gapEnd mid = ')' :: rest := by
  induction items generalizing input with
  | nil =>
    have hcloser : gapEnd (layout.tailText text [] rest) = ')' :: rest :=
      gapEnd_append_cons layout.isSpaces_pad (by decide) (by decide) rest
    rw [hcloser] at hinput
    exact ⟨input, sepTail_of_mismatch (spaced_char_of_ne (by rw [hinput]; exact head?_cons_ne (by decide) _)), hinput⟩
  | cons item items ih =>
    have hitem := hitems item List.mem_cons_self
    have hends := endsParam_tailText layout text items rest
    obtain ⟨mid, hread, hsuffix, hmid⟩ := hitem.read _ hends
    obtain ⟨last, hlast, hgap⟩ := ih (fun other hother => hitems other (List.mem_cons_of_mem item hother)) hmid
    have hcomma := comma_tailText layout (hitem.token _ hends) hinput
    refine ⟨last, ?_, hgap⟩
    rw [sepTail_of_ok hcomma hread (length_lt_of_comma layout hinput hsuffix), hlast]
    rfl

/-- The list with its closing parenthesis, in front of more text. -/
theorem listText_cons (item : γ) (items : List γ) (rest : Text) : layout.listText text (item :: items) ++ ')' :: rest =
    text item ++ layout.tailText text items rest := by
  rw [Layout.listText, Layout.tailText, List.append_assoc, List.append_assoc]

theorem opener_listText {item : γ} (hitem : StartsParam (text item)) (items : List γ) (rest : Text) :
    beforeGap (char '(') ('(' :: (layout.pad ++ (layout.listText text (item :: items) ++ ')' :: rest))) =
      .ok '(' (text item ++ layout.tailText text items rest) := by
  have htoken := hitem.token _ (endsParam_tailText layout text items rest)
  rw [listText_cons, beforeGap_of_ok (char_cons '(' _), gapEnd_append_token layout.isSpaces_pad htoken]

/-- A list is read if its items are, and if only a parenthesis begins another list. -/
theorem paramListBody_items (hitems : ∀ item ∈ items, ReadsParam inner room (text item) (value item)) (rest : Text) :
    paramListBody room inner ('(' :: (layout.pad ++ (layout.listText text items ++ ')' :: rest))) =
      .ok { params := items.map value, isVariadic := false } rest := by
  have hcloser : StartsToken (')' :: rest) := startsToken_cons (by decide) (by decide) rest
  have hclose {mid : Text} (hmid : gapEnd mid = ')' :: rest) : afterGap (char ')') mid = .ok ')' rest := afterGap_char hmid
  have hdots {mid : Text} (hmid : gapEnd mid = ')' :: rest) : Mismatches (do
      let _ ← opt (spaced (char ','))
      afterGap (literal "...")) mid := by
    have hcomma : Mismatches (spaced (char ',')) mid := spaced_char_of_ne (by rw [hmid]; exact head?_cons_ne (by decide) _)
    refine .bind_of_ok (opt_of_mismatch hcomma) (.afterGap ?_)
    rw [hmid]
    exact literal_of_ne (c := '.') rfl (head?_cons_ne (by decide) _)
  obtain ⟨mid, hread, hmid, htoken⟩ : ∃ mid, firstOf [voidList, sepBy (spaced (char ',')) (Param.parserWith inner room)]
      (layout.listText text items ++ ')' :: rest) = .ok (items.map value) mid ∧ gapEnd mid = ')' :: rest ∧
        StartsToken (layout.listText text items ++ ')' :: rest) := by
    cases items with
    | nil =>
      have hnone : StartsNoType (')' :: rest) := startsNoType_cons (by decide) (by decide) rest
      have hvoid : Mismatches (keyword "void") (')' :: rest) := keyword_of_ne (by decide) (hnone.headWord_ne (by decide))
      refine ⟨')' :: rest, (firstOf_of_mismatch hvoid.bind).trans (firstOf_of_ok ?_), gapEnd_of_startsToken hcloser, hcloser⟩
      exact params_of_startsNoType (head?_cons_ne (by decide) _) hnone
    | cons item items =>
      have hitem := hitems item List.mem_cons_self
      have hends := endsParam_tailText layout text items rest
      obtain ⟨mid, hread, -, hmid⟩ := hitem.read _ hends
      obtain ⟨last, hlast, hgap⟩ := sepTail_items layout (fun other hother => hitems other (List.mem_cons_of_mem item hother)) hmid
      rw [listText_cons]
      refine ⟨last, ?_, hgap, hitem.token _ hends⟩
      refine (firstOf_of_mismatch (hitem.not_void _ hends)).trans (firstOf_of_ok ?_)
      rw [sepBy_of_ok hread, hlast]
      rfl
  have hopen : beforeGap (char '(') ('(' :: (layout.pad ++ (layout.listText text items ++ ')' :: rest))) =
      .ok '(' (layout.listText text items ++ ')' :: rest) := by
    rw [beforeGap_of_ok (char_cons '(' _), gapEnd_append_token layout.isSpaces_pad htoken]
  rw [paramListBody, bind_of_ok hopen]
  refine (bind_of_ok hread).trans ?_
  rw [bind_of_ok (opt_of_mismatch (hdots hmid)), bind_of_ok (hclose hmid)]
  rfl

/-- Within a list only a parenthesis begins another one. -/
theorem exists_paramListBody (room : Nat) (input : Text) : ∃ inner : Parser ParamList,
    (∀ input : Text, input.head? ≠ some '(' → Mismatches inner input) ∧ paramList room input = paramListBody room inner input := by
  rw [paramList_eq, recurse_apply]
  refine ⟨_, fun rest hrest => ?_, rfl⟩
  obtain ⟨trace, hmismatch⟩ : Mismatches (paramList room) rest := paramList_of_ne hrest
  unfold Mismatches
  dsimp only
  split
  · exact ⟨trace, hmismatch⟩
  · exact ⟨[], rfl⟩

theorem paramList_items (hitems : ∀ inner : Parser ParamList, (∀ input : Text, input.head? ≠ some '(' → Mismatches inner input) →
      ∀ item ∈ items, ReadsParam inner room (text item) (value item)) (rest : Text) :
    paramList room ('(' :: (layout.pad ++ (layout.listText text items ++ ')' :: rest))) =
      .ok { params := items.map value, isVariadic := false } rest := by
  obtain ⟨inner, hinner, heq⟩ := exists_paramListBody room ('(' :: (layout.pad ++ (layout.listText text items ++ ')' :: rest)))
  rw [heq]
  exact paramListBody_items layout (hitems inner hinner) rest

end Items

section Item

variable {param : CType × Text} (htype : Written param.1) (hname : isDeclarable param.2 = true)

theorem paramText_append (param : CType × Text) (tail : Text) : Declaration.paramText layout param ++ tail =
    render param.1 ++ (layout.blank ++ (param.2 ++ tail)) := by
  rw [Declaration.paramText, List.append_assoc, List.append_assoc]

include htype hname

theorem startsToken_paramText (htail : EndsWord tail) : StartsToken (Declaration.paramText layout param ++ tail) := by
  rw [paramText_append]
  exact htype.startsToken (layout.declares hname htail).endsType.word

theorem void_paramText (htail : EndsWord tail) : Mismatches voidList (Declaration.paramText layout param ++ tail) := by
  have hdeclares := layout.declares hname htail
  rw [paramText_append]
  exact void_of_front (htype.front _) hdeclares.endsType.word (hdeclares.head_ne (by decide))

theorem readsParam_of_written (hinner : ∀ input : Text, input.head? ≠ some '(' → Mismatches inner input)
    (hread : ReadsType room param.1) :
    ReadsParam inner room (Declaration.paramText layout param) (Declaration.paramOf param) where
  token _ htail := startsToken_paramText layout htype hname htail.endsWord
  not_void _ htail := void_paramText layout htype hname htail.endsWord
  read tail htail := by
    have hopen : (gapEnd tail).head? ≠ some '(' := by
      obtain ⟨c, hc, hhead⟩ := htail.gapEnd
      rw [hhead]
      rintro ⟨⟩
      exact absurd hc (by decide)
    refine ⟨tail, ?_, List.suffix_rfl, rfl⟩
    rw [paramText_append]
    exact param_append htype hread (layout.declares hname htail.endsWord) htail.gapEnd (.afterGap (hinner _ hopen))

end Item

theorem listText_paramText (params : List (CType × Text)) :
    layout.listText (Declaration.paramText layout) params = Declaration.paramsText layout params := by
  cases params <;> rfl

theorem paramList_append (hparams : ∀ param ∈ params, Written param.1 ∧ isDeclarable param.2 = true)
    (hdepth : CType.deepest (params.map Prod.fst) < room) (rest : Text) :
    paramList room ('(' :: (layout.pad ++ (Declaration.paramsText layout params ++ ')' :: rest))) =
      .ok { params := params.map Declaration.paramOf, isVariadic := false } rest := by
  rw [← listText_paramText]
  refine paramList_items layout (fun inner hinner param hparam => ?_) rest
  obtain ⟨htype, hname⟩ := hparams param hparam
  have hlists : listDepth param.1 ≤ CType.deepest (params.map Prod.fst) := listDepth_le_deepest (List.mem_map_of_mem hparam)
  have hparam_depth : listDepth param.1 < room := by omega
  exact readsParam_of_written layout htype hname hinner (readsType_of_listDepth (templateArgs_append room) htype hparam_depth)

end ParamList

/-! ### Functions -/

theorem qualifier_of_semicolon (rest : Text) : Mismatches (FunctionDecl.Qualifier.parser room) (';' :: rest) := by
  have hends : EndsWord (';' :: rest) := endsWord_cons (by decide) rest
  have hkeyword {word : String} (hword : isIdentifier word.toList = true) : Mismatches (keyword word) (';' :: rest) := by
    have hnone : StartsNoType (';' :: rest) := startsNoType_cons (by decide) (by decide) rest
    exact keyword_of_ne (isWordChar_of_isIdentifier hword) (hnone.headWord_ne hword)
  have hliteral {word : String} {c : Char} {tail : Text} (hword : word.toList = c :: tail) (hc : c ≠ ';') :
      Mismatches (literal word) (';' :: rest) := literal_of_ne hword (head?_cons_ne hc.symm rest)
  have hreference : Mismatches (firstOf [literal "&&", literal "&"]) (';' :: rest) := by
    refine .firstOf_cons ?_ (.firstOf_cons ?_ .firstOf_nil)
    · exact hliteral rfl (by decide)
    · exact hliteral rfl (by decide)
  refine .firstOf_cons ?_ (.firstOf_cons ?_ (.firstOf_cons ?_ (.firstOf_cons ?_ (.firstOf_cons ?_
    (.firstOf_cons ?_ (.firstOf_cons ?_ (.firstOf_cons ?_ (.firstOf_cons ?_ .firstOf_nil))))))))
  · exact (hkeyword (by decide)).map
  · exact (hkeyword (by decide)).map
  · exact (hkeyword (by decide)).bind
  · exact (hkeyword (by decide)).bind
  · exact (hkeyword (by decide)).map
  · exact (hkeyword (by decide)).map
  · exact hreference.map
  · exact (hliteral rfl (by decide)).bind
  · have hbracket : (';' :: rest).head? ≠ some '[' := head?_cons_ne (by decide) rest
    exact (attributeMark_of_uncalled hbracket (uncalled_of_endsWord hends)).map

/-- What is read behind the result and the name of a function. -/
def FunctionDecl.behindSignature (room : Nat) (result : CType) (name : Text) : Parser FunctionDecl := do
  let params ← afterGap (paramList room)
  let qualifiers ← many (afterGap (Qualifier.parser room))
  let definition ← opt definition
  let hasBody ← bodyParser room
  let declared : FunctionDecl :=
    { Declaration.functionOf result name [] with
      params := params.params
      isPureVirtual := definition == some .pure
      isDeleted := definition == some .delete
      isDefaulted := definition == some .default
      isVariadic := params.isVariadic
      hasBody }
  pure (qualifiers.foldl Qualifier.apply declared)

section Function

variable (layout : Layout) {list : Text} {params : List Param} (htype : Written type) (hname : isDeclarable name = true)

include htype hname

/-- A function starts as an item of a scope or class of which only its kind is open. -/
theorem startsMember_function (list : Text) :
    StartsMember (render type ++ (layout.blank ++ (name ++ (layout.pad ++ '(' :: list)))) := by
  have hopen : gapEnd (layout.pad ++ '(' :: list) = '(' :: list :=
    gapEnd_append_cons layout.isSpaces_pad (by decide) (by decide) list
  have hends : EndsType (layout.pad ++ '(' :: list) := endsType_append layout.isSpaces_pad (by decide) list
  exact startsMember_of_declares (layout.declares hname hends.word) (by rw [hopen]; exact head?_cons_ne (by decide) _)
    (htype.front _)

/-- The result and the name of a function are read in front of its parameter list. -/
theorem function_eq (hread : ReadsType room type) (list : Text) :
    function room (render type ++ (layout.blank ++ (name ++ (layout.pad ++ '(' :: list)))) =
      FunctionDecl.behindSignature room type name (layout.pad ++ '(' :: list) := by
  have hopen : gapEnd (layout.pad ++ '(' :: list) = '(' :: list :=
    gapEnd_append_cons layout.isSpaces_pad (by decide) (by decide) list
  have hends : EndsType (layout.pad ++ '(' :: list) := endsType_append layout.isSpaces_pad (by decide) list
  have hrest := layout.declares hname hends.word
  have hstarts := startsMember_function layout htype hname list
  generalize layout.blank ++ (name ++ (layout.pad ++ '(' :: list)) = behind at hrest hstarts ⊢
  have hhead : Mismatches (templateHead room) (render type ++ behind) :=
    templateHead_of_ne (hstarts.words "template" (by decide))
  have hleading := specifiers_of_front hrest.endsType.word (htype.front behind) hstarts
  have hsignature := FunctionDecl.signature_append hread hrest hends.toEndsNamed hopen
  have hchoice : firstOf
      [(fun signature => (none, [], signature)) <$> FunctionDecl.signature room,
       (do
        let api ← beforeGap macroName
        let trailing ← FunctionSpecifier.listParser
        let signature ← FunctionDecl.signature room
        pure (some api, trailing, signature))] (render type ++ behind) =
      .ok (none, [], ⟨some type, name⟩) (layout.pad ++ '(' :: list) := firstOf_of_ok (map_of_ok hsignature)
  rw [function, bind_of_ok (leadingComment_of_startsToken hstarts.token), bind_of_ok (opt_of_mismatch hhead),
    bind_of_ok hleading, bind_of_ok hchoice]
  rfl

/-- A function with its result and name, a list that is read as its parameters, and a semicolon. -/
theorem function_of_paramList (hread : ReadsType room type)
    (hlist : paramList room ('(' :: list) = .ok { params, isVariadic := false } (layout.pad ++ ';' :: rest)) :
    function room (render type ++ (layout.blank ++ (name ++ (layout.pad ++ '(' :: list)))) =
      .ok { Declaration.functionOf type name [] with params } rest := by
  have hopen : gapEnd (layout.pad ++ '(' :: list) = '(' :: list :=
    gapEnd_append_cons layout.isSpaces_pad (by decide) (by decide) list
  have hparamList : afterGap (paramList room) (layout.pad ++ '(' :: list) =
      .ok { params, isVariadic := false } (layout.pad ++ ';' :: rest) := by
    rw [afterGap_apply, hopen]
    exact hlist
  have hsemicolon : gapEnd (layout.pad ++ ';' :: rest) = ';' :: rest :=
    gapEnd_append_cons layout.isSpaces_pad (by decide) (by decide) rest
  have hqualifiers : many (afterGap (FunctionDecl.Qualifier.parser room)) (layout.pad ++ ';' :: rest) =
      .ok [] (layout.pad ++ ';' :: rest) := by
    refine many_of_mismatch (.afterGap ?_)
    rw [hsemicolon]
    exact qualifier_of_semicolon rest
  have hdefinition : Mismatches FunctionDecl.definition (layout.pad ++ ';' :: rest) :=
    .bind (spaced_char_of_ne (by rw [hsemicolon]; exact head?_cons_ne (by decide) _))
  have hbody : FunctionDecl.bodyParser room (layout.pad ++ ';' :: rest) = .ok false rest := by
    exact firstOf_of_ok (map_of_ok (afterGap_char hsemicolon))
  rw [function_eq layout htype hname hread, FunctionDecl.behindSignature, bind_of_ok hparamList, bind_of_ok hqualifiers,
    bind_of_ok (opt_of_mismatch hdefinition), bind_of_ok hbody]
  rfl

end Function

/-- A function with its result, name and parameters, up to its semicolon. -/
theorem function_append (layout : Layout) {params : List (CType × Text)} (htype : Written type)
    (hname : isDeclarable name = true) (hparams : ∀ param ∈ params, Written param.1 ∧ isDeclarable param.2 = true)
    (hdepth : listDepth type < room) (hparams_depth : CType.deepest (params.map Prod.fst) < room) (rest : Text) :
    function room (render type ++ (layout.blank ++ (name ++ (layout.pad ++ '(' :: (layout.pad ++
      (Declaration.paramsText layout params ++ ')' :: (layout.pad ++ ';' :: rest))))))) =
        .ok (Declaration.functionOf type name params) rest :=
  function_of_paramList layout htype hname (readsType_of_listDepth (templateArgs_append room) htype hdepth)
    (paramList_append layout hparams hparams_depth (layout.pad ++ ';' :: rest))

end HeaderOutline
