import HeaderOutline.Proofs.Source.Definition
/-!
# Structs as they are written

A struct holds variables, functions and structs, one in a line. Its body opens a level of nesting, so the
levels that are left bound how deep the text may be that is read back.
-/

namespace HeaderOutline

open HeaderOutline.Parser HeaderOutline.CType

variable {α β γ : Type} {room : Nat} {input mid rest name : Text}

/-! ### Lines -/

/-- How the line of a declaration or of a namespace starts. -/
def StartsLine (input : Text) : Prop := ∃ c tail, input = c :: tail ∧ (isWordStart c = true ∨ c = ':')

/-- No semicolon follows that a line could take in. -/
def EndsLine (rest : Text) : Prop := (gapEnd rest).head? ≠ some ';'

theorem StartsLine.startsToken (hinput : StartsLine input) : StartsToken input := by
  obtain ⟨c, tail, rfl, hc⟩ := hinput
  rcases hc with hc | rfl
  · exact startsToken_of_isWordStart hc tail
  · exact startsToken_cons (by decide) (by decide) tail

theorem StartsLine.head_ne (hinput : StartsLine input) {c : Char} (hword : isWordStart c = false) (hcolon : c ≠ ':') :
    input.head? ≠ some c := by
  obtain ⟨d, tail, rfl, hd⟩ := hinput
  rintro ⟨⟩
  rcases hd with hd | rfl
  · rw [hword] at hd
    cases hd
  · exact hcolon rfl

theorem StartsLine.endsLine (hinput : StartsLine input) {spaces : Text} (hspaces : IsSpaces spaces) :
    EndsLine (spaces ++ input) := by
  rw [EndsLine, gapEnd_append_token hspaces hinput.startsToken]
  exact hinput.head_ne (by decide) (by decide)

/-- Lines are read up to the stop if each of them is read behind any white space. -/
theorem manyTill_lines {p : Parser α} {stop : Parser β} {b : β} {line : Text} {items : List γ} {text : γ → Text}
    (value : γ → α) (hline : IsSpaces line) (hstarts : ∀ c ∈ items, ∀ tail, StartsLine (text c ++ tail))
    (hnext : ∀ spaces input, IsSpaces spaces → StartsLine input → Mismatches stop (spaces ++ input))
    (hitems : ∀ c ∈ items, ∀ spaces tail, IsSpaces spaces → EndsLine tail →
      p (spaces ++ (text c ++ tail)) = .ok (value c) tail)
    (hrest : ∀ spaces, IsSpaces spaces → EndsLine (spaces ++ rest))
    (hstop : ∀ spaces, IsSpaces spaces → stop (spaces ++ rest) = .ok b mid) {spaces : Text} (hspaces : IsSpaces spaces) :
    manyTill p stop (spaces ++ (items.flatMap (fun c => text c ++ line) ++ rest)) = .ok (items.map value) mid := by
  induction items generalizing spaces with
  | nil => exact manyTill_of_stop (hstop spaces hspaces)
  | cons c items ih =>
    have hothers := ih (fun d hd => hstarts d (List.mem_cons_of_mem c hd))
      (fun d hd => hitems d (List.mem_cons_of_mem c hd)) hline
    have hends : EndsLine (line ++ (items.flatMap (fun c => text c ++ line) ++ rest)) := by
      cases items with
      | nil => exact hrest line hline
      | cons d items =>
        rw [List.flatMap_cons, List.append_assoc, List.append_assoc]
        exact (hstarts d (List.mem_cons_of_mem c List.mem_cons_self) _).endsLine hline
    have hstart := hstarts c List.mem_cons_self (line ++ (items.flatMap (fun c => text c ++ line) ++ rest))
    have hread := hitems c List.mem_cons_self spaces _ hspaces hends
    have htext : 0 < (text c).length := by
      obtain ⟨d, tail, hd, hstart⟩ := hstarts c List.mem_cons_self []
      rw [← List.append_nil (text c), hd]
      exact Nat.succ_pos _
    rw [List.flatMap_cons, List.append_assoc, List.append_assoc, manyTill_of_ok (hnext spaces _ hspaces hstart) hread,
      hothers]
    · rfl
    · simp only [List.length_append]
      omega

/-- A struct up to its closing brace. -/
theorem recordDefinition_append (layout : Layout) {inner : Text} (room : Nat) {body : Parser (List RecordItem)}
    {items : List RecordItem} (hname : isDeclarable name = true) (hbody : body inner = .ok items rest) :
    recordDefinitionWith room body ("struct".toList ++ (layout.blank ++ (name ++ (layout.blank ++ '\x7b' :: inner)))) =
      .ok ((Declaration.recordOf name [] [] []).addItems .isPublic items) rest := by
  have hplain : ∀ word ∈ some name, isPlainName word = true := by
    rintro _ ⟨⟩
    exact isPlainName_of_isDeclarable hname
  have hdefinition := recordDefinition_block layout room body .isStruct hplain inner
  rw [hbody] at hdefinition
  exact hdefinition

/-! ### Contents -/

theorem ByAccess.append_publicly (items : List α) (item : α) :
    (ByAccess.publicly items).append .isPublic [item] = .publicly (items ++ [item]) := by
  cases items with
  | nil => rfl
  | cons first items => rfl

/-- Declarations by a type and a name are no records. -/
theorem record_of_front (room : Nat) {depth : Nat} (hrest : EndsWord rest) (hfront : Front depth rest input) :
    Mismatches (record room) input := by
  have hkinds : ∀ word ∈ ["class", "struct", "union"], word ∈ reservedWords ∧ word ≠ "const" := by decide
  refine record_of_ne (recordBody room) hfront.startsToken (hfront.word_ne hrest (by decide) (by decide)) ?_
  exact fun word hword => hfront.word_ne hrest (hkinds word hword).1 (hkinds word hword).2

namespace Declaration

/-- The struct that is declared by its name and members. -/
def structOf (name : Text) (members : List Declaration) : Record :=
  recordOf name (members.filterMap toFunction?) (members.filterMap toVariable?) (records members)

/-- What stands for a declaration among items of which some are records, some functions and some variables. -/
def item (ofRecord : Record → α) (ofFunction : FunctionDecl → α) (ofVariables : List Variable → α) : Declaration → α
  | .var type name => ofVariables [variableOf type name]
  | .function result name params => ofFunction (functionOf result name params)
  | .struct name members => ofRecord (structOf name members)

/-- The item of a class body. -/
def recordItem : Declaration → RecordItem := item .record .method .members

theorem records_cons (declared : Declaration) (declarations : List Declaration) :
    records (declared :: declarations) = records [declared] ++ records declarations := by
  cases declared <;> simp only [records, List.nil_append, List.cons_append]

theorem addItem_recordOf (declared : Declaration) (methods : List FunctionDecl) (members : List Variable)
    (inner : List Record) : (recordOf name methods members inner).addItem .isPublic (recordItem declared) =
      recordOf name (methods ++ [declared].filterMap toFunction?) (members ++ [declared].filterMap toVariable?)
        (inner ++ records [declared]) := by
  cases declared with
  | var type declaredName =>
    have hfunction : [var type declaredName].filterMap toFunction? = [] := rfl
    rw [recordItem, item, Record.addItem, recordOf, ByAccess.append_publicly, hfunction, List.append_nil]
    simp only [records, List.append_nil]
    rfl
  | function result declaredName params =>
    have hvariable : [function result declaredName params].filterMap toVariable? = [] := rfl
    rw [recordItem, item, Record.addItem, recordOf, ByAccess.append_publicly, hvariable, List.append_nil]
    simp only [records, List.append_nil]
    rfl
  | struct declaredName declaredMembers =>
    have hfunction : [struct declaredName declaredMembers].filterMap toFunction? = [] := rfl
    have hvariable : [struct declaredName declaredMembers].filterMap toVariable? = [] := rfl
    rw [recordItem, item, Record.addItem, recordOf, ByAccess.append_publicly, hfunction, hvariable, List.append_nil,
      List.append_nil, records, records]
    rfl

/-- A struct lists its members by kind, and each kind in source order. -/
theorem addItems_recordOf (declarations : List Declaration) (methods : List FunctionDecl) (members : List Variable)
    (inner : List Record) : (recordOf name methods members inner).addItems .isPublic (declarations.map recordItem) =
      recordOf name (methods ++ declarations.filterMap toFunction?) (members ++ declarations.filterMap toVariable?)
        (inner ++ records declarations) := by
  induction declarations generalizing methods members inner with
  | nil => simp only [List.map_nil, List.filterMap_nil, records, List.append_nil, Record.addItems]
  | cons declared declarations ih =>
    have hcons (record : Record) : record.addItems .isPublic ((declared :: declarations).map recordItem) =
        (record.addItem .isPublic (recordItem declared)).addItems .isPublic (declarations.map recordItem) := by
      cases declared <;> rfl
    rw [hcons, addItem_recordOf, ih, List.append_assoc, List.append_assoc, List.append_assoc, ← List.filterMap_append,
      ← List.filterMap_append, ← records_cons, List.singleton_append]

/-! ### Statements -/

section Statements

variable (layout : Layout)

/-- No variable is declared behind the brace. -/
theorem instances_of_semicolon (hinput : gapEnd input = ';' :: rest) : Mismatches (instances room) input := by
  have hsemicolon : gapEnd (';' :: rest) = ';' :: rest :=
    gapEnd_cons (by decide) (by decide) rest
  have hsuffixes := suffixed_of_endsType .unnamed (endsType_cons (c := ';') (by decide) rest)
  have hcall : (gapEnd (';' :: rest)).head? ≠ some '(' := by
    rw [hsemicolon]
    exact head?_cons_ne (by decide) _
  have hname : Mismatches plainName (gapEnd (';' :: rest)) := by
    rw [hsemicolon]
    exact FunctionDecl.plainName_symbol (by decide) rest
  have hchoice := declaratorName_of_ne (paramList room) .unnamed hcall hname
  refine .bind (Mismatches.sepBy1 (.afterGap ?_))
  rw [hinput]
  exact .bind_of_ok hsuffixes (.bind_of_ok hchoice ⟨_, rfl⟩)

/-- A struct with its semicolon, which declares no variable besides. -/
theorem record_append {body : Parser (List RecordItem)} {members : List Declaration}
    (hname : isDeclarable name = true) (hbody : ∀ rest, body
      (layout.line ++ (lines layout members ++ '\x7d' :: rest)) = .ok (members.map recordItem) rest) (rest : Text) :
    recordWith room (recordDefinitionWith room body) (text layout (.struct name members) ++ rest) =
      .ok (structOf name members) rest := by
  have hdefinition := recordDefinition_append layout room hname (hbody (layout.pad ++ ';' :: rest))
  have hsemicolon : gapEnd (layout.pad ++ ';' :: rest) = ';' :: rest :=
    gapEnd_append_cons layout.isSpaces_pad (by decide) (by decide) rest
  have hend : commit (expecting "`;` after class definition" (afterGap (char ';'))) (layout.pad ++ ';' :: rest) =
      .ok ';' rest := by
    have hchar : afterGap (char ';') (layout.pad ++ ';' :: rest) = .ok ';' rest := afterGap_char hsemicolon
    rw [commit, expecting, hchar]
  rw [text_struct, recordWith, bind_of_ok hdefinition, addItems_recordOf, recordOf, if_neg Bool.false_ne_true,
    bind_of_ok (opt_of_mismatch (instances_of_semicolon hsemicolon)), bind_of_ok hend]
  rfl

end Statements

/-! ### Declarations -/

section Declarations

variable (layout : Layout) {declared : Declaration}

theorem startsLine_text (hdeclared : declared.WellFormed) (rest : Text) : StartsLine (text layout declared ++ rest) := by
  cases hdeclared with
  | var htype _ =>
    rw [text_var]
    exact (htype.front _).head
  | function hresult _ _ =>
    rw [text_function]
    exact (hresult.front _).head
  | struct _ _ =>
    rw [text_struct]
    exact ⟨'s', _, rfl, .inl (by decide)⟩

/-- The word in front tells a struct from the items of other kinds. -/
theorem startsMember_struct (hrest : EndsWord rest) : StartsMember ("struct".toList ++ rest) where
  token := startsToken_word (by decide) rest
  symbol := by
    intro c hc heq
    cases heq
    exact absurd hc (by decide)
  words := by
    rw [headWord_append (by decide) hrest]
    decide
  uncalled := by
    have hwords : ∀ word ∈ callWords, "struct".toList ≠ word.toList := by decide
    intro word hword heq
    rw [headWord_append (by decide) hrest] at heq
    exact absurd heq (hwords word hword)
  label := by
    have hwords : ∀ word ∈ ["public", "protected", "private", "signals", "Q_SIGNALS"],
        headWord ("struct".toList ++ rest) ≠ word.toList := by
      rw [headWord_append (by decide) hrest]
      decide
    refine .bind (.firstOf_cons ?_ (.firstOf_cons ?_ .firstOf_nil))
    · exact (anyKeyword_of_ne (by decide) fun word hword => hwords word (by revert word; decide)).map
    · exact (anyKeyword_of_ne (by decide) fun word hword => hwords word (by revert word; decide)).map

theorem startsMember_text (hdeclared : declared.WellFormed) (rest : Text) :
    StartsMember (text layout declared ++ rest) := by
  cases hdeclared with
  | var htype hname =>
    rw [text_var]
    have hends : EndsType (layout.pad ++ ';' :: rest) := endsType_append layout.isSpaces_pad (by decide) rest
    refine startsMember_of_declares (layout.declares hname hends.word) ?_ (htype.front _)
    rw [gapEnd_append_cons layout.isSpaces_pad (by decide) (by decide) rest]
    exact head?_cons_ne (by decide) _
  | @function _ _ params hresult hname _ =>
    rw [text_function]
    generalize layout.pad ++ (paramsText layout params ++ ')' :: (layout.pad ++ ';' :: rest)) = list
    have hends : EndsType (layout.pad ++ '(' :: list) := endsType_append layout.isSpaces_pad (by decide) list
    refine startsMember_of_declares (layout.declares hname hends.word) ?_ (hresult.front _)
    rw [gapEnd_append_cons layout.isSpaces_pad (by decide) (by decide) list]
    exact head?_cons_ne (by decide) _
  | struct hname _ =>
    rw [text_struct]
    exact startsMember_struct (endsWord_spaces layout.isSpaces_blank layout.blank_ne _)

/-- Bodies of structs are read back, as far as the levels that are left suffice. -/
def ReadsMembers (room : Nat) : Prop :=
  ∀ members : List Declaration, (∀ member ∈ members, member.WellFormed) → deepest members + 1 < room →
    ∀ rest, recordBody room (layout.line ++ (lines layout members ++ '\x7d' :: rest)) = .ok (members.map recordItem) rest

/-- A declaration is no record, unless it is a struct, and no function, unless it has a parenthesis. -/
theorem firstOf_text (hmembers : ReadsMembers layout room) (hdeclared : declared.WellFormed)
    (hdepth : declared.depth < room) (ofRecord : Record → α) (ofFunction : FunctionDecl → α)
    (ofVariables : List Variable → α) (others : List (Parser α)) (rest : Text) :
    firstOf ((ofRecord <$> record room) :: (ofFunction <$> HeaderOutline.function room) ::
      (ofVariables <$> variableStatement room) :: others) (text layout declared ++ rest) =
        .ok (declared.item ofRecord ofFunction ofVariables) rest := by
  have hstarts := startsMember_text layout hdeclared rest
  cases hdeclared with
  | @var type name htype hname =>
    rw [text_var] at hstarts ⊢
    rw [depth] at hdepth
    have hends : EndsType (layout.pad ++ ';' :: rest) := endsType_append layout.isSpaces_pad (by decide) rest
    have hdeclares := layout.declares hname hends.word
    have hsemicolon : gapEnd (layout.pad ++ ';' :: rest) = ';' :: rest :=
      gapEnd_append_cons layout.isSpaces_pad (by decide) (by decide) rest
    have hrecord := record_of_front room hdeclares.endsType.word (htype.front _)
    have hfunction := function_of_declares htype hdepth hdeclares hends (by rw [hsemicolon]; rfl)
    have hvariable := variableStatement_append htype hdepth hdeclares hsemicolon
    rw [firstOf_of_mismatch hrecord.map, firstOf_of_mismatch hfunction.map]
    exact firstOf_of_ok (map_of_ok hvariable)
  | @function result name params hresult hname hparams =>
    rw [depth] at hdepth
    have hparams_depth : CType.deepest (params.map Prod.fst) < room := by omega
    have hread := function_append layout hresult hname hparams (by omega) hparams_depth rest
    rw [text_function] at hstarts ⊢
    generalize layout.pad ++ (paramsText layout params ++ ')' :: (layout.pad ++ ';' :: rest)) = list at hread ⊢
    have hends : EndsType (layout.pad ++ '(' :: list) := endsType_append layout.isSpaces_pad (by decide) list
    have hdeclares := layout.declares hname hends.word
    have hrecord := record_of_front room hdeclares.endsType.word (hresult.front _)
    rw [firstOf_of_mismatch hrecord.map]
    exact firstOf_of_ok (map_of_ok hread)
  | @struct name members hname hwritten =>
    rw [depth] at hdepth
    have hread : record room (text layout (.struct name members) ++ rest) = .ok (structOf name members) rest :=
      record_append layout hname (hmembers members hwritten hdepth) rest
    rw [text_struct] at hread ⊢
    exact firstOf_of_ok (map_of_ok hread)

/-- Each level of nesting takes one from the levels that are left. -/
theorem readsMembers (room : Nat) : ReadsMembers layout room := by
  induction room with
  | zero => exact fun members _ hdepth => absurd hdepth (Nat.not_lt_zero _)
  | succ room ih =>
    intro members hmembers hdepth rest
    have hcloser : StartsToken ('\x7d' :: rest) := startsToken_cons (by decide) (by decide) rest
    rw [recordBody, lines_eq_flatMap]
    refine manyTill_lines (b := '\x7d') recordItem layout.isSpaces_line
      (fun member hmember => startsLine_text layout (hmembers member hmember)) (fun spaces input hspaces hinput => ?_)
      (fun member hmember spaces tail hspaces _ => ?_) (fun spaces hspaces => ?_) (fun spaces hspaces => ?_)
      layout.isSpaces_line
    · obtain ⟨text, hread⟩ := spaces0_append hspaces hinput.startsToken
      exact .bind_of_ok hread (char_of_ne (hinput.head_ne (by decide) (by decide)))
    · have hmember_depth : member.depth ≤ deepest members := depth_le_deepest hmember
      -- A struct among the members has a body of its own, for which one level less is left.
      rw [recordItemWith_of_startsMember hspaces (startsMember_text layout (hmembers member hmember) tail)]
      exact firstOf_text layout ih (hmembers member hmember) (by omega) _ _ _ _ tail
    · rw [EndsLine, gapEnd_append_token hspaces hcloser]
      exact head?_cons_ne (by decide) _
    · obtain ⟨text, hread⟩ := spaces0_append hspaces hcloser
      exact (bind_of_ok hread).trans (char_cons '\x7d' rest)

end Declarations

end Declaration

end HeaderOutline
