import HeaderOutline.Scope.Parser
import HeaderOutline.Proofs.CType.Written
/-!
# How an item starts

Most alternatives of an item are told apart by the word in front. What starts with a word of its own is
passed over by them all, so that only records, functions and variables are left to be tried.
-/

namespace HeaderOutline

open HeaderOutline.Parser

variable {α : Type} {room : Nat} {input rest : Text}

/-! ### Comments, heads and attributes -/

theorem spaces0_of_startsToken (hinput : StartsToken input) : spaces0 input = .ok [] input := by
  cases input with
  | nil => rfl
  | cons c rest =>
    have hspace : ¬isSpace c = true := Bool.eq_false_iff.1 (hinput c rfl).1
    rw [spaces0, Parser.takeWhile, List.takeWhile_cons_of_neg hspace, List.dropWhile_cons_of_neg hspace]

theorem comment_of_startsToken (hinput : StartsToken input) : Mismatches comment input := by
  have hslash : input.head? ≠ some '/' := fun heq => (hinput '/' heq).2 rfl
  have hmark : Mismatches (firstOf [literal "///", literal "//!", literal "//"]) input :=
    .firstOf_cons (literal_of_ne rfl hslash) (.firstOf_cons (literal_of_ne rfl hslash)
      (.firstOf_cons (literal_of_ne rfl hslash) .firstOf_nil))
  have hline : Mismatches (do let _ ← spaces0; Comment.oneLine) input :=
    .bind_of_ok (spaces0_of_startsToken hinput) hmark.bind
  have hlines : Mismatches (many1 (do let _ ← spaces0; Comment.oneLine)) input := by
    obtain ⟨trace, hline⟩ := hline
    exact ⟨_, by rw [many1, hline]⟩
  have hblock : Mismatches Comment.blockLines input := .bind (literal_of_ne rfl hslash)
  refine .bind (.firstOf_cons ?_ (.firstOf_cons ?_ .firstOf_nil))
  · exact hlines
  · exact hblock

theorem leadingComment_of_startsToken (hinput : StartsToken input) : leadingComment input = .ok none input := by
  have hgap : skipGap input = .ok () input := by rw [skipGap_apply, gapEnd_of_startsToken hinput]
  rw [leadingComment, bind_of_ok (spaces0_of_startsToken hinput),
    bind_of_ok (opt_of_mismatch (comment_of_startsToken hinput)), bind_of_ok hgap]
  rfl

theorem templateHead_of_ne (hinput : headWord input ≠ "template".toList) : Mismatches (templateHead room) input := by
  rw [Mismatches, templateHead, recurse_apply]
  exact Mismatches.bind (.beforeGap (keyword_of_ne (by decide) hinput))

/-- Words that say nothing unless a parenthesis follows them. -/
def callWords : List String := ["__attribute__", "__declspec", "alignas", "static_assert", "_Static_assert"]

/-- None of these words stands here with a parenthesis behind it. -/
def Uncalled (input : Text) : Prop :=
  ∀ word ∈ callWords, headWord input = word.toList → (gapEnd (input.dropWhile isWordChar)).head? ≠ some '('

theorem uncalled_of_endsWord (hinput : EndsWord input) : Uncalled input := by
  have hcalls : ∀ word ∈ callWords, [] ≠ word.toList := by decide
  intro word hword heq
  rw [headWord_of_endsWord hinput] at heq
  exact absurd heq (hcalls word hword)

theorem block_of_ne {opener closer : Char} (hinput : input.head? ≠ some opener) :
    Mismatches (block opener closer) input := ⟨_, if_neg hinput⟩

theorem Uncalled.bind (hinput : Uncalled input) {words : List String} (hwords : ∀ word ∈ words, word ∈ callWords)
    {f : Text → Parser α} (hf : ∀ word rest, Mismatches (afterGap parentheses) rest → Mismatches (f word) rest) :
    Mismatches (anyKeyword words >>= f) input := by
  have hcalls : ∀ word ∈ callWords, IsWord word := by decide
  have hwords_isWord : ∀ word ∈ words, IsWord word := fun word hword => hcalls word (hwords word hword)
  by_cases hhead : ∃ word ∈ words, headWord input = word.toList
  · obtain ⟨word, hword, heq⟩ := hhead
    have hrest := hinput word (hwords word hword) heq
    exact .bind_of_ok (anyKeyword_of_eq hwords_isWord hword heq) (hf _ _ (.afterGap (block_of_ne hrest)))
  · exact .bind (anyKeyword_of_ne hwords_isWord fun word hword heq => hhead ⟨word, hword, heq⟩)

theorem attributeMark_of_uncalled (hbracket : input.head? ≠ some '[') (hinput : Uncalled input) :
    Mismatches attributeMark input := by
  refine .firstOf_cons ?_ (.firstOf_cons ?_ .firstOf_nil)
  · exact .textOf (.bind (literal_of_ne rfl hbracket))
  · exact .textOf (hinput.bind (by decide) fun _ _ hrest => hrest)

theorem attributes_of_uncalled (hbracket : input.head? ≠ some '[') (hinput : Uncalled input) :
    attributes input = .ok () input :=
  bind_of_ok (many_of_mismatch (.beforeGap (attributeMark_of_uncalled hbracket hinput)))

theorem staticAssertion_of_uncalled (hinput : Uncalled input) : Mismatches staticAssertion input :=
  .textOf (hinput.bind (by decide) fun _ _ hrest => hrest.bind)

/-! ### Alternatives that a word introduces -/

theorem directive_of_ne (hinput : input.head? ≠ some '#') : Mismatches directive input := by
  obtain ⟨trace, hnumber⟩ := char_of_ne hinput
  exact ⟨trace, by rw [directive, bind_apply, hnumber]; rfl⟩

theorem aliasStatement_of_ne (hinput : headWord input ≠ "namespace".toList) :
    Mismatches Namespace.aliasStatement input := .textOf (.bind (.beforeGap (keyword_of_ne (by decide) hinput)))

theorem namespace_of_ne (body : Parser Scope) (htoken : StartsToken input) (hinline : headWord input ≠ "inline".toList)
    (hinput : headWord input ≠ "namespace".toList) : Mismatches (Namespace.parserWith body) input := by
  have hword : Mismatches (beforeGap (keyword "inline")) input := .beforeGap (keyword_of_ne (by decide) hinline)
  refine .bind_of_ok (spaces0_of_startsToken htoken) (.bind_of_ok (opt_of_mismatch hword) (.bind ?_))
  exact .beforeGap (keyword_of_ne (by decide) hinput)

theorem linkageBlock_of_ne (body : Parser Scope) (hinput : headWord input ≠ "extern".toList) :
    Mismatches (Scope.linkageBlock body) input := .bind (.beforeGap (keyword_of_ne (by decide) hinput))

theorem explicitInstantiation_of_ne (hexternal : headWord input ≠ "extern".toList)
    (hinput : headWord input ≠ "template".toList) : Mismatches Scope.explicitInstantiation input := by
  have hword : Mismatches (beforeGap (keyword "extern")) input := .beforeGap (keyword_of_ne (by decide) hexternal)
  refine .textOf (.bind_of_ok (opt_of_mismatch hword) (.bind ?_))
  exact .beforeGap (keyword_of_ne (by decide) hinput)

theorem friendClass_of_ne (htemplate : headWord input ≠ "template".toList)
    (hinput : headWord input ≠ "friend".toList) : Mismatches (friendClass room) input := by
  refine .bind_of_ok (opt_of_mismatch (templateHead_of_ne htemplate)) (.bind ?_)
  exact .beforeGap (keyword_of_ne (by decide) hinput)

theorem typedefWith_of_ne (definition : Parser Record) (htoken : StartsToken input)
    (hinput : headWord input ≠ "typedef".toList) : Mismatches (typedefWith room definition) input := by
  refine .bind_of_ok (leadingComment_of_startsToken htoken) (.bind ?_)
  exact .beforeGap (keyword_of_ne (by decide) hinput)

theorem usingAlias_of_ne (htoken : StartsToken input) (htemplate : headWord input ≠ "template".toList)
    (hinput : headWord input ≠ "using".toList) : Mismatches (usingAlias room) input := by
  refine .bind_of_ok (leadingComment_of_startsToken htoken)
    (.bind_of_ok (opt_of_mismatch (templateHead_of_ne htemplate)) (.bind ?_))
  exact .beforeGap (keyword_of_ne (by decide) hinput)

theorem usingDeclaration_of_ne (htoken : StartsToken input) (hinput : headWord input ≠ "using".toList) :
    Mismatches usingDeclaration input := by
  refine .bind (.spaced ?_)
  rw [gapEnd_of_startsToken htoken]
  exact keyword_of_ne (by decide) hinput

theorem enumeration_of_ne (htoken : StartsToken input) (hinput : headWord input ≠ "enum".toList) :
    Mismatches (enumeration room) input := by
  refine .bind (.bind_of_ok (leadingComment_of_startsToken htoken) (.bind ?_))
  exact .beforeGap (keyword_of_ne (by decide) hinput)

theorem recordKind_of_ne (hinput : ∀ word ∈ ["class", "struct", "union"], headWord input ≠ word.toList) :
    Mismatches RecordKind.parser input := by
  refine .firstOf_cons ?_ (.firstOf_cons ?_ (.firstOf_cons ?_ .firstOf_nil))
  · exact (keyword_of_ne (by decide) (hinput "class" (by decide))).map
  · exact (keyword_of_ne (by decide) (hinput "struct" (by decide))).map
  · exact (keyword_of_ne (by decide) (hinput "union" (by decide))).map

theorem recordDefinitionWith_of_ne (body : Parser (List RecordItem)) (htoken : StartsToken input)
    (htemplate : headWord input ≠ "template".toList)
    (hinput : ∀ word ∈ ["class", "struct", "union"], headWord input ≠ word.toList) :
    Mismatches (recordDefinitionWith room body) input := by
  refine .bind_of_ok (leadingComment_of_startsToken htoken)
    (.bind_of_ok (opt_of_mismatch (templateHead_of_ne htemplate)) (.bind ?_))
  exact .beforeGap (recordKind_of_ne hinput)

theorem record_of_ne (body : Parser (List RecordItem)) (htoken : StartsToken input)
    (htemplate : headWord input ≠ "template".toList)
    (hinput : ∀ word ∈ ["class", "struct", "union"], headWord input ≠ word.toList) :
    Mismatches (recordWith room (recordDefinitionWith room body)) input :=
  .bind (recordDefinitionWith_of_ne body htoken htemplate hinput)

/-! ### Items -/

/-- What introduces no item that stands in front of records, functions and variables. -/
structure StartsMember (input : Text) : Prop where
  token : StartsToken input
  symbol : ∀ c ∈ [';', '#', '['], input.head? ≠ some c
  words : ∀ word ∈ ["namespace", "inline", "extern", "template", "typedef", "using", "enum", "friend"],
    headWord input ≠ word.toList
  uncalled : Uncalled input
  label : Mismatches accessLabel input

theorem StartsMember.attributes (hinput : StartsMember input) : attributes input = .ok () input :=
  attributes_of_uncalled (hinput.symbol '[' (by decide)) hinput.uncalled

theorem Scope.itemWith_of_startsMember {spaces : Text} (hspaces : IsSpaces spaces) (hinput : StartsMember input)
    (body : Parser Scope) : Scope.itemWith room body (spaces ++ input) = firstOf
      [.record <$> record room, .function <$> function room, .vars <$> variableStatement room,
       (fun _ => .ignored) <$> macroInvocation, .comment <$> HeaderOutline.comment, unrecognized "declaration"]
      input := by
  obtain ⟨token, symbol, words, uncalled, -⟩ := hinput
  obtain ⟨text, hspaces⟩ := spaces0_append hspaces token
  have hsemicolon := char_of_ne (symbol ';' (by decide))
  have hdirective := directive_of_ne (symbol '#' (by decide))
  have hnamespace := words "namespace" (by decide)
  have halias := aliasStatement_of_ne hnamespace
  have hblock := namespace_of_ne body token (words "inline" (by decide)) hnamespace
  have hexternal := words "extern" (by decide)
  have hlinkage := linkageBlock_of_ne body hexternal
  have hassertion := staticAssertion_of_uncalled uncalled
  have htemplate := words "template" (by decide)
  have hinstantiation := explicitInstantiation_of_ne hexternal htemplate
  have htypedef : Mismatches (typedef room) input := typedefWith_of_ne _ token (words "typedef" (by decide))
  have husing := words "using" (by decide)
  have husingAlias : Mismatches (usingAlias room) input := usingAlias_of_ne token htemplate husing
  have husingDeclaration := usingDeclaration_of_ne token husing
  have henumeration : Mismatches (enumeration room) input := enumeration_of_ne token (words "enum" (by decide))
  rw [Scope.itemWith, bind_of_ok hspaces, firstOf_of_mismatch hsemicolon.map, firstOf_of_mismatch hdirective.map,
    firstOf_of_mismatch halias.map, firstOf_of_mismatch hblock.map, firstOf_of_mismatch hlinkage.map,
    firstOf_of_mismatch hassertion.map, firstOf_of_mismatch hinstantiation.map, firstOf_of_mismatch htypedef.map,
    firstOf_of_mismatch husingAlias.map, firstOf_of_mismatch husingDeclaration.map,
    firstOf_of_mismatch henumeration.map]

theorem recordItemWith_of_startsMember {spaces : Text} (hspaces : IsSpaces spaces) (hinput : StartsMember input)
    (definition : Parser Record) : recordItemWith room definition (spaces ++ input) = firstOf
      [.record <$> recordWith room definition, .method <$> function room, .members <$> variableStatement room,
       (fun _ => .ignored) <$> macroInvocation, (fun _ => .ignored) <$> comment, unrecognized "class member"]
      input := by
  obtain ⟨token, symbol, words, uncalled, label⟩ := hinput
  obtain ⟨text, hspaces⟩ := spaces0_append hspaces token
  have hsemicolon := char_of_ne (symbol ';' (by decide))
  have hdirective := directive_of_ne (symbol '#' (by decide))
  have hassertion := staticAssertion_of_uncalled uncalled
  have htemplate := words "template" (by decide)
  have hfriend : Mismatches (friendClass room) input := friendClass_of_ne htemplate (words "friend" (by decide))
  have htypedef : Mismatches (typedefWith room definition) input :=
    typedefWith_of_ne _ token (words "typedef" (by decide))
  have husing := words "using" (by decide)
  have husingAlias : Mismatches (usingAlias room) input := usingAlias_of_ne token htemplate husing
  have husingDeclaration := usingDeclaration_of_ne token husing
  have henumeration : Mismatches (enumeration room) input := enumeration_of_ne token (words "enum" (by decide))
  rw [recordItemWith, bind_of_ok hspaces, firstOf_of_mismatch hsemicolon.map, firstOf_of_mismatch hdirective.map,
    firstOf_of_mismatch label.map, firstOf_of_mismatch hassertion.map, firstOf_of_mismatch hfriend.map,
    firstOf_of_mismatch htypedef.map, firstOf_of_mismatch husingAlias.map,
    firstOf_of_mismatch husingDeclaration.map, firstOf_of_mismatch henumeration.map]

end HeaderOutline
