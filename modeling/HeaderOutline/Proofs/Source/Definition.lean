import HeaderOutline.Proofs.Source.Statement
/-!
# Definitions as they are written

A class, struct, union or enumeration is the same with and without a name in front of its bases or its brace, up to the name.
What stands behind the brace decides whether it is read.
-/

namespace HeaderOutline

open HeaderOutline.Parser HeaderOutline.CType

variable {room : Nat} {rest behind input : Text}

/-! ### Names in front of a clause -/

section Name

variable {name : Text} (hname : isPlainName name = true) (hends : EndsWord rest)

include hname hends

/-- No attribute stands in front of the name of a definition. -/
theorem attributes_of_name (hbehind : (gapEnd rest).head? ≠ some '(') : attributes (name ++ rest) = .ok () (name ++ rest) := by
  refine attributes_of_uncalled (head?_word_ne (isIdentifier_of_isPlainName hname) (by decide) _) fun word _ _ => ?_
  rwa [dropWhile_append hname hends]

/-- A name without another word behind it is no export mark. -/
theorem exportMark_of_name (hbehind : EndsWord (gapEnd rest)) : Mismatches (do
      let api ← macroName
      let _ ← lookahead (afterGap (identifier.filter fun word => word != "final".toList))
      pure api) (name ++ rest) := by
  have hidentifier := isIdentifier_of_isPlainName hname
  have hnext : Mismatches (identifier.filter fun word => word != "final".toList) (gapEnd rest) :=
    .filter (identifier_of_endsWord hbehind)
  cases hcapitals : isMacroName name with
  | false => exact .bind (.filter_of_ok (identifier_append hidentifier hends) hcapitals)
  | true => exact .bind_of_ok (macroName_append hidentifier hcapitals hends) (.bind (.lookahead (.afterGap hnext)))

/-- Two colons belong to the name only with a word behind them. -/
theorem recordName_append (hpath : ∀ tail, rest = "::".toList ++ tail → EndsWord tail) :
    recordName (name ++ rest) = .ok name rest := by
  have htail : sepTail (literal "::") identifier rest = .ok [] rest := by
    by_cases hcolons : "::".toList <+: rest
    · obtain ⟨tail, rfl⟩ := hcolons
      exact sepTail_of_item_mismatch (literal_append "::" tail) (identifier_of_endsWord (hpath tail rfl))
    · exact sepTail_of_mismatch (literal_of_not_begins hcolons)
  have hread : sepBy1 (literal "::") identifier (name ++ rest) = .ok [name] rest := by
    rw [sepBy1_of_ok (identifier_append (isIdentifier_of_isPlainName hname) hends), htail]
    rfl
  exact textOf_of_ok hread

end Name

/-- The bases or the body of a definition come next. -/
def StartsClause (behind : Text) : Prop := ∃ c ∈ [':', '\x7b'], ∃ text, behind = c :: text

/-- A definition goes on with `behind`, behind its name if it has one. -/
inductive Heads (behind : Text) : Option Text → Text → Prop
  | unnamed : Heads behind none behind
  | named {name rest : Text} (hname : isPlainName name = true) (hends : EndsWord rest)
    (hpath : ∀ tail, rest = "::".toList ++ tail → EndsWord tail) (hgap : gapEnd rest = behind) :
    Heads behind (some name) (name ++ rest)

namespace StartsClause

variable (hbehind : StartsClause behind)

include hbehind

theorem endsWord : EndsWord behind := by
  obtain ⟨c, hc, text, rfl⟩ := hbehind
  exact endsWord_cons (by revert c; decide) text

theorem startsToken : StartsToken behind := by
  obtain ⟨c, hc, text, rfl⟩ := hbehind
  exact startsToken_cons (by revert c; decide) (by revert c; decide) text

theorem head?_ne {d : Char} (hd : d ∉ [':', '\x7b']) : behind.head? ≠ some d := by
  obtain ⟨c, hc, text, rfl⟩ := hbehind
  exact head?_cons_ne (fun heq : c = d => hd (heq ▸ hc)) text

end StartsClause

namespace Heads

variable {name : Option Text} (hhead : Heads behind name input) (hbehind : StartsClause behind)

include hhead hbehind

theorem startsToken : StartsToken input := by
  cases hhead with
  | unnamed => exact hbehind.startsToken
  | named hname => exact startsToken_word (isIdentifier_of_isPlainName hname) _

/-- The words are reserved, so none of them is the name. -/
theorem anyKeyword {words : List String} (hwords : ∀ word ∈ words, IsWord word ∧ word ∈ reservedWords) :
    Mismatches (anyKeyword words) input := by
  cases hhead with
  | unnamed =>
    have hreserved : ∀ word ∈ reservedWords, [] ≠ word.toList := by decide
    refine anyKeyword_of_ne (fun word hword => (hwords word hword).1) fun word hword => ?_
    rw [headWord_of_endsWord hbehind.endsWord]
    exact hreserved word (hwords word hword).2
  | named hname hends => exact (startsName_append hname hends).anyKeyword hwords

theorem attributes : attributes input = .ok () input := by
  cases hhead with
  | unnamed => exact attributes_of_uncalled (hbehind.head?_ne (by decide)) (uncalled_of_endsWord hbehind.endsWord)
  | named hname hends hpath hgap => exact attributes_of_name hname hends (hgap ▸ hbehind.head?_ne (by decide))

theorem exportMark : Mismatches (do
      let api ← macroName
      let _ ← lookahead (afterGap (identifier.filter fun word => word != "final".toList))
      pure api) input := by
  cases hhead with
  | unnamed => exact .bind (.filter (identifier_of_endsWord hbehind.endsWord))
  | named hname hends hpath hgap => exact exportMark_of_name hname hends (hgap ▸ hbehind.endsWord)

omit hbehind in
/-- The name is read with the gap behind it, by any parser that reads names in front of a clause. -/
theorem opt_name {p : Parser Text} (hp : Mismatches p behind)
    (hread : ∀ {word rest}, isPlainName word = true → EndsWord rest → (∀ tail, rest = "::".toList ++ tail → EndsWord tail) →
      p (word ++ rest) = .ok word rest) : opt (beforeGap p) input = .ok name behind := by
  cases hhead with
  | unnamed => exact opt_of_mismatch (.beforeGap hp)
  | named hname hends hpath hgap =>
    refine opt_of_ok ?_
    rw [beforeGap_of_ok (hread hname hends hpath), hgap]

end Heads

/-! ### Definitions in front of a brace -/

/-- The name of a definition, if it has one, and its brace. -/
def Layout.block (layout : Layout) : Option Text → Text → Text
  | none, inner => '\x7b' :: inner
  | some name, inner => name ++ (layout.blank ++ '\x7b' :: inner)

theorem startsClause_brace (inner : Text) : StartsClause ('\x7b' :: inner) := ⟨'\x7b', by decide, inner, rfl⟩

section Block

variable (layout : Layout)

/-- What stands behind the name of a block. -/
theorem gapEnd_brace (inner : Text) : gapEnd (layout.blank ++ '\x7b' :: inner) = '\x7b' :: inner :=
  gapEnd_append_cons layout.isSpaces_blank (by decide) (by decide) inner

theorem endsWord_brace (inner : Text) : EndsWord (layout.blank ++ '\x7b' :: inner) :=
  endsWord_spaces layout.isSpaces_blank layout.blank_ne _

theorem heads_block {name : Option Text} (hname : ∀ word ∈ name, isPlainName word = true) (inner : Text) :
    Heads ('\x7b' :: inner) name (layout.block name inner) := by
  cases name with
  | none => exact .unnamed
  | some name =>
    refine .named (hname name rfl) (endsWord_brace layout inner) (fun tail htail => ?_) (gapEnd_brace layout inner)
    exact absurd (layout.isSpaces_blank.isGap.eq_nil (by decide) (by decide) htail) layout.blank_ne

end Block

/-! ### Records -/

theorem RecordKind.isIdentifier_word (kind : RecordKind) : isIdentifier kind.word = true := by
  cases kind <;> decide

theorem recordKind_word (kind : RecordKind) (hrest : EndsWord rest) :
    RecordKind.parser (kind.word ++ rest) = .ok kind rest := by
  have hne {word : String} (hword : IsWord word) (hkind : kind.word ≠ word.toList) :
      Mismatches (keyword word) (kind.word ++ rest) :=
    keyword_of_ne hword (by rwa [headWord_append (isWordChar_of_isIdentifier kind.isIdentifier_word) hrest])
  cases kind with
  | isClass => exact firstOf_of_ok (map_of_ok (keyword_append "class" hrest))
  | isStruct =>
    rw [RecordKind.parser, firstOf_of_mismatch (hne (by decide) (by decide)).map]
    exact firstOf_of_ok (map_of_ok (keyword_append "struct" hrest))
  | isUnion =>
    rw [RecordKind.parser, firstOf_of_mismatch (hne (by decide) (by decide)).map,
      firstOf_of_mismatch (hne (by decide) (by decide)).map]
    exact firstOf_of_ok (map_of_ok (keyword_append "union" hrest))

/-- The record of which no more is known than its kind and its name. -/
def Record.empty (kind : RecordKind) (name : Option Text) : Record :=
  { name, kind
    api := none
    templateParams := []
    specialization := none
    bases := []
    isFinal := false
    isForwardDeclaration := false
    comment := none }

/-- The bases and the body of a record with this head. -/
def recordRest (room : Nat) (body : Parser (List RecordItem)) (kind : RecordKind) (name : Option Text) : Parser Record := do
  let bases ← opt (Base.listParser room kind.defaultAccess)
  let head := { Record.empty kind name with bases := bases.getD [] }
  let forward ← if name.isSome then opt (lookahead (afterGap (char ';'))) else pure none
  if forward.isSome then pure { head with isForwardDeclaration := true }
  else
    let _ ← afterGap (char '\x7b')
    let items ← body
    pure (head.addItems kind.defaultAccess items)

/-- The head of a record is passed over, and neither arguments nor `final` stand behind the name. -/
theorem recordDefinition_head (room : Nat) (body : Parser (List RecordItem)) (kind : RecordKind) {name : Option Text} {gap : Text}
    (hhead : Heads behind name input) (hbehind : StartsClause behind) (hgap : IsGap gap) (hends : EndsWord (gap ++ input)) :
    recordDefinitionWith room body (kind.word ++ (gap ++ input)) = recordRest room body kind name behind := by
  have hstart := hhead.startsToken hbehind
  have hend : gapEnd (gap ++ input) = input := hgap.gapEnd_token hstart
  have htoken : StartsToken (kind.word ++ (gap ++ input)) := startsToken_word kind.isIdentifier_word _
  have htemplate : Mismatches (templateHead room) (kind.word ++ (gap ++ input)) := by
    refine templateHead_of_ne ?_
    rw [headWord_append (isWordChar_of_isIdentifier kind.isIdentifier_word) hends]
    cases kind <;> decide
  have hattributes := hhead.attributes hbehind
  have hattributes_gap : afterGap attributes input = .ok () input := by
    rw [afterGap_apply, gapEnd_of_startsToken hstart, hattributes]
  have hname : opt (beforeGap recordName) input = .ok name behind :=
    hhead.opt_name (.textOf (.sepBy1 (identifier_of_endsWord hbehind.endsWord))) recordName_append
  have hspecialization : Mismatches (beforeGap (inside <$> angleBrackets)) behind :=
    .beforeGap (Mismatches.map (block_of_ne (hbehind.head?_ne (by decide))))
  have hfinal : Mismatches (beforeGap (keyword "final")) behind := by
    refine .beforeGap (keyword_of_ne (by decide) ?_)
    rw [headWord_of_endsWord hbehind.endsWord]
    decide
  rw [recordDefinitionWith, bind_of_ok (leadingComment_of_startsToken htoken), bind_of_ok (opt_of_mismatch htemplate),
    bind_of_ok (beforeGap_of_ok (recordKind_word kind hends)), hend, bind_of_ok hattributes,
    bind_of_ok (opt_of_mismatch (hhead.exportMark hbehind)), bind_of_ok hattributes_gap, bind_of_ok hname,
    bind_of_ok (opt_of_mismatch hspecialization), bind_of_ok (opt_of_mismatch hfinal)]
  rfl

/-- The items are read behind the brace that follows the bases. -/
theorem recordRest_of_bases (body : Parser (List RecordItem)) (kind : RecordKind) (name : Option Text)
    {bases : Option (List Base)} {mid inner : Text} (hbases : opt (Base.listParser room kind.defaultAccess) behind = .ok bases mid)
    (hmid : gapEnd mid = '\x7b' :: inner) : recordRest room body kind name behind =
      (body inner).map fun items =>
        ({ Record.empty kind name with bases := bases.getD [] } : Record).addItems kind.defaultAccess items := by
  have hforward : Mismatches (lookahead (afterGap (char ';'))) mid := by
    refine .lookahead (.afterGap (char_of_ne ?_))
    rw [hmid]
    exact head?_cons_ne (by decide) inner
  rw [recordRest, bind_of_ok hbases, ← map_apply]
  dsimp only
  cases name with
  | none =>
    have hnone : (pure none : Parser (Option Char)) mid = .ok none mid := rfl
    rw [Option.isSome_none, if_neg Bool.false_ne_true, bind_of_ok hnone, Option.isSome_none, if_neg Bool.false_ne_true,
      bind_of_ok (afterGap_char hmid)]
    rfl
  | some name =>
    rw [Option.isSome_some, if_pos rfl, bind_of_ok (opt_of_mismatch hforward), Option.isSome_none,
      if_neg Bool.false_ne_true, bind_of_ok (afterGap_char hmid)]
    rfl

/-- Without bases the items are read behind the brace of the head. -/
theorem recordDefinition_block (layout : Layout) (room : Nat) (body : Parser (List RecordItem)) (kind : RecordKind)
    {name : Option Text} (hname : ∀ word ∈ name, isPlainName word = true) (inner : Text) :
    recordDefinitionWith room body (kind.word ++ (layout.blank ++ layout.block name inner)) =
      (body inner).map fun items => (Record.empty kind name).addItems kind.defaultAccess items := by
  have hgap : gapEnd ('\x7b' :: inner) = '\x7b' :: inner := gapEnd_cons (by decide) (by decide) inner
  have hbases : Mismatches (Base.listParser room kind.defaultAccess) ('\x7b' :: inner) :=
    .bind (spaced_char_of_ne (by rw [hgap]; exact head?_cons_ne (by decide) _))
  rw [recordDefinition_head room body kind (heads_block layout hname inner) (startsClause_brace inner)
      layout.isSpaces_blank.isGap (endsWord_spaces layout.isSpaces_blank layout.blank_ne _),
    recordRest_of_bases body kind name (opt_of_mismatch hbases) hgap]
  rfl

/-! ### Enumerations -/

namespace Enumeration

/-- The enumerators, with the closing brace. -/
def body : Parser (List Enumerator) := commit (expecting "enumerator" do
  let enumerators ← Enumerator.listParser
  let _ ← char '\x7d'
  pure enumerators)

/-- The plain enumeration with these enumerators. -/
def ofEnumerators (name : Option Text) (enumerators : List Enumerator) : Enumeration :=
  { name, enumerators
    isScoped := false
    type := none
    isForwardDeclaration := false
    instances := []
    comment := none }

theorem body_ne_mismatch (input : Text) (trace : Trace) : body input ≠ .mismatch trace := by
  unfold body commit
  intro hmismatch
  split at hmismatch <;> cases hmismatch

end Enumeration

/-- The head of an enumeration is passed over, and its enumerators are read behind the brace. -/
theorem enumerationDefinition_block (layout : Layout) (room : Nat) {name : Option Text}
    (hname : ∀ word ∈ name, isPlainName word = true) (inner : Text) :
    enumerationDefinition room ("enum".toList ++ (layout.blank ++ layout.block name inner)) =
      (Enumeration.body inner).map (Enumeration.ofEnumerators name) := by
  have hclause := startsClause_brace inner
  have hhead := heads_block layout hname inner
  have hends : EndsWord (layout.blank ++ layout.block name inner) := endsWord_spaces layout.isSpaces_blank layout.blank_ne _
  have hgap : gapEnd (layout.blank ++ layout.block name inner) = layout.block name inner :=
    gapEnd_append_token layout.isSpaces_blank (hhead.startsToken hclause)
  have htoken : StartsToken ("enum".toList ++ (layout.blank ++ layout.block name inner)) :=
    startsToken_word (by decide) _
  have hscope : Mismatches (beforeGap (anyKeyword ["class", "struct"])) (layout.block name inner) :=
    .beforeGap (hhead.anyKeyword hclause (by decide))
  have hread : opt (beforeGap plainName) (layout.block name inner) = .ok name ('\x7b' :: inner) :=
    hhead.opt_name (.filter (identifier_of_endsWord hclause.endsWord)) fun hname hends _ => plainName_append hname hends
  have hbrace : gapEnd ('\x7b' :: inner) = '\x7b' :: inner := gapEnd_cons (by decide) (by decide) inner
  have htype : Mismatches (do let _ ← spaced (char ':'); cType room) ('\x7b' :: inner) :=
    .bind (spaced_char_of_ne (by rw [hbrace]; exact head?_cons_ne (by decide) _))
  have hopen : afterGap (char '\x7b') ('\x7b' :: inner) = .ok '\x7b' inner := afterGap_char hbrace
  have hbody : firstOf
      [(do
        let _ ← afterGap (char '\x7b')
        let enumerators ← Enumeration.body
        pure (some enumerators)),
       (fun _ => none) <$> lookahead (afterGap (char ';'))] ('\x7b' :: inner) = (some <$> Enumeration.body) inner := by
    rw [firstOf_of_ne_mismatch, bind_of_ok hopen]
    · rfl
    · rw [bind_of_ok hopen]
      exact fun trace hmismatch => Enumeration.body_ne_mismatch inner trace (map_eq_mismatch.1 hmismatch)
  rw [enumerationDefinition, bind_of_ok (leadingComment_of_startsToken htoken),
    bind_of_ok (beforeGap_of_ok (keyword_append "enum" hends)), hgap, bind_of_ok (opt_of_mismatch hscope),
    bind_of_ok (hhead.attributes hclause), bind_of_ok hread, bind_of_ok (opt_of_mismatch htype)]
  refine (congrArg (Outcome.andThen _) hbody).trans ?_
  rw [map_apply]
  cases Enumeration.body inner <;> rfl

end HeaderOutline
