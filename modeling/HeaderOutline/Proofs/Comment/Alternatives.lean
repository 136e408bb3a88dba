import HeaderOutline.Proofs.Comment.Declaration
import HeaderOutline.Proofs.Source.Statement
/-!
# Which alternatives exclude each other

An item of a class body is read by the first alternative that matches. Behind a comment the alternatives that
take no comment in front of them are passed over, so the item is read as before only if none of the others
matches what they would have read. A word in front tells most of them apart; functions and variables may begin
with any word that is not reserved.
-/

namespace HeaderOutline

open HeaderOutline.Parser HeaderOutline.CType

variable {room : Nat} {input rest : Text} {definition : Parser Record} {body : Parser (List RecordItem)}

/-! ### Where no function and no variable begins -/

/-- The reserved words that begin a label or an assertion. -/
def labelWords : List String := ["public", "protected", "private", "static_assert"]

/-- These words, and the empty one. -/
def idleWords : List Text := [] :: labelWords.map String.toList

/-- Neither a name comes next, nor anything that may stand in front of one. -/
structure DeclaresNothing (input : Text) : Prop where
  token : StartsToken input
  marks : ∀ c ∈ [':', '~', '['], input.head? ≠ some c
  word : headWord input ∈ idleWords

namespace DeclaresNothing

theorem cons {c : Char} (hspace : isSpace c = false) (hslash : c ≠ '/') (hword : isWordChar c = false)
    (hmarks : ∀ d ∈ [':', '~', '['], c ≠ d) (tail : Text) : DeclaresNothing (c :: tail) where
  token := startsToken_cons hspace hslash tail
  marks d hd := head?_cons_ne (hmarks d hd) tail
  word := by
    rw [headWord_of_endsWord (endsWord_cons hword tail)]
    exact List.mem_cons_self

theorem of_labelWord (hlabel : headWord input ∈ labelWords.map String.toList) : DeclaresNothing input := by
  have hidentifiers : ∀ word ∈ labelWords.map String.toList, isIdentifier word = true := by decide
  have hsymbols : ∀ c ∈ [':', '~', '['], isWordChar c = false := by decide
  refine ⟨?_, fun c hc heq => ?_, List.mem_cons_of_mem _ hlabel⟩
  · rw [← headWord_append_dropWhile input]
    exact startsToken_word (hidentifiers _ hlabel) _
  · obtain ⟨tail, rfl⟩ := List.head?_eq_some_iff.1 heq
    rw [headWord_of_endsWord (endsWord_cons (hsymbols c hc) tail)] at hlabel
    exact absurd hlabel (by decide)

variable (hinput : DeclaresNothing input)

include hinput

theorem ne {word : String} (hword : word.toList ∉ idleWords) : headWord input ≠ word.toList :=
  fun heq => hword (heq ▸ hinput.word)

theorem plainName : Mismatches plainName input := by
  have hreserved : ∀ word ∈ labelWords.map String.toList, isReserved word = true := by decide
  rcases List.mem_cons.1 hinput.word with hempty | hword
  · exact (identifier_of_endsWord (endsWord_of_headWord hempty)).filter
  · rcases identifier_cases input with hidentifier | hidentifier
    · exact hidentifier.filter
    · exact .filter_of_ok hidentifier (by rw [hreserved _ hword]; rfl)

theorem macroName : Mismatches macroName input := by
  have hsmall : ∀ word ∈ idleWords, isMacroName word = false := by decide
  rcases identifier_cases input with hidentifier | hidentifier
  · exact hidentifier.filter
  · exact .filter_of_ok hidentifier (hsmall _ hinput.word)

theorem attributeMark : Mismatches attributeMark input := by
  have hwords : ∀ word ∈ ["__attribute__", "__declspec", "alignas"],
      IsWord word ∧ word.toList ∉ idleWords := by decide
  refine .firstOf_cons ?_ (.firstOf_cons ?_ .firstOf_nil)
  · exact .textOf (.bind (literal_of_ne rfl (hinput.marks '[' (by decide))))
  · exact .textOf (.bind (anyKeyword_of_ne (fun word hword => (hwords word hword).1)
      fun word hword => hinput.ne (hwords word hword).2))

theorem typeWords_ne : ∀ word ∈ typeWords, headWord input ≠ word.toList := by
  have hwords : ∀ word ∈ typeWords, word.toList ∉ idleWords := by decide
  exact fun word hword => hinput.ne (hwords word hword)

theorem signature : Mismatches (FunctionDecl.signature room) input := by
  have htype : Mismatches (cType room) input :=
    qualified_of_ne (hinput.marks ':' (by decide)) hinput.typeWords_ne hinput.plainName
  have hname : FunctionDecl.NamesNoCall room input :=
    .of_mismatches hinput.plainName (hinput.ne (by decide)) (hinput.marks '~' (by decide))
  exact .firstOf_cons htype.bind (.firstOf_cons hname.signature .firstOf_nil)

theorem templateHead : Mismatches (templateHead room) input := templateHead_of_ne (hinput.ne (by decide))

theorem function : Mismatches (function room) input := by
  have hwords : ∀ word ∈ FunctionSpecifier.words, word.toList ∉ idleWords := by decide
  have hspecifiers : FunctionSpecifier.listParser input = .ok [] input :=
    specifiers_of_ne (fun word hword => hinput.ne (hwords word hword)) hinput.attributeMark
  refine .bind_of_ok (leadingComment_of_startsToken hinput.token) (.bind_of_ok (opt_of_mismatch hinput.templateHead)
    (.bind_of_ok hspecifiers (.bind (.firstOf_cons ?_ (.firstOf_cons ?_ .firstOf_nil)))))
  · exact hinput.signature.map
  · exact .bind hinput.macroName.beforeGap

theorem variableStatement : Mismatches (variableStatement room) input := by
  have hwords : ∀ word ∈ ["const", "volatile", "extern"], word.toList ∉ idleWords := by decide
  have hmodifiers : ∀ word ∈ idleWords, VariableModifier.ofWord? word = none := by decide
  have hattributes : attributes input = .ok () input := bind_of_ok (many_of_mismatch hinput.attributeMark.beforeGap)
  have hspecifier : Mismatches Variable.Specifier.parser input :=
    specifier_of_ne (fun word hword => hinput.ne (hwords word hword)) (hmodifiers _ hinput.word)
  refine .bind_of_ok (leadingComment_of_startsToken hinput.token) (.bind_of_ok (opt_of_mismatch hinput.templateHead)
    (.bind_of_ok hattributes (.bind_of_ok (many_of_mismatch hspecifier) (.bind ?_))))
  exact unqualified_of_ne (hinput.marks ':' (by decide)) hinput.typeWords_ne hinput.plainName _

end DeclaresNothing

/-! ### Declarations that a word introduces -/

/-- The words that a declaration may begin with, functions and variables apart. -/
def introducingWords : List String := ["template", "typedef", "using", "enum", "class", "struct", "union"]

namespace RecordItem

/-- The alternatives that take the comment in front of them. -/
def declarations (room : Nat) (definition : Parser Record) : List (Parser RecordItem) :=
  [.typedef <$> typedefWith room definition,
   .usingAlias <$> HeaderOutline.usingAlias room,
   (fun _ => .ignored) <$> usingDeclaration,
   .enumeration <$> HeaderOutline.enumeration room,
   .record <$> recordWith room definition,
   .method <$> function room,
   .members <$> variableStatement room]

/-- The alternatives that a declaration may be mistaken for, or that may be mistaken for one. -/
def overlapping (room : Nat) : List (Parser RecordItem) :=
  [.access <$> accessLabel,
   (fun _ => .ignored) <$> staticAssertion,
   .friend <$> friendClass room]

/-- The alternatives that take no comment in front of them and are tried first. -/
def undeclared (room : Nat) : List (Parser RecordItem) :=
  [(fun _ => .ignored) <$> char ';', (fun _ => .ignored) <$> directive] ++ overlapping room

/-- What is tried last. -/
def remaining : List (Parser RecordItem) :=
  [(fun _ => .ignored) <$> macroInvocation, (fun _ => .ignored) <$> comment, unrecognized "class member"]

/-- No label, assertion or friend is read here, or no function and no variable. -/
def Unambiguous (room : Nat) (input : Text) : Prop :=
  Mismatches (firstOf (overlapping room)) input ∨
    Mismatches (function room) input ∧ Mismatches (variableStatement room) input

/-- No type, alias, enumeration or class is declared here. -/
theorem declarations_of_head {params : Option (List TemplateParam)} {mid : Text} (htoken : StartsToken input)
    (hhead : opt (templateHead room) input = .ok params mid)
    (hinput : ∀ word ∈ ["typedef", "using", "enum"], headWord input ≠ word.toList)
    (hmid : ∀ word ∈ ["using", "class", "struct", "union"], headWord mid ≠ word.toList)
    (hfunction : Mismatches (function room) input) (hvariable : Mismatches (variableStatement room) input) :
    Mismatches (firstOf (declarations room (recordDefinitionWith room body))) input := by
  have hcomment := leadingComment_of_startsToken htoken
  have htypedef : Mismatches (typedefWith room (recordDefinitionWith room body)) input :=
    typedefWith_of_ne _ htoken (hinput "typedef" (by decide))
  have halias : Mismatches (HeaderOutline.usingAlias room) input :=
    .bind_of_ok hcomment (.bind_of_ok hhead (.bind (.beforeGap (keyword_of_ne (by decide) (hmid "using" (by decide))))))
  have husing : Mismatches usingDeclaration input := usingDeclaration_of_ne htoken (hinput "using" (by decide))
  have henumeration : Mismatches (HeaderOutline.enumeration room) input :=
    enumeration_of_ne htoken (hinput "enum" (by decide))
  have hkind : Mismatches RecordKind.parser mid :=
    recordKind_of_ne fun word hword => hmid word (List.mem_cons_of_mem "using" hword)
  have hrecord : Mismatches (recordWith room (recordDefinitionWith room body)) input :=
    .bind (.bind_of_ok hcomment (.bind_of_ok hhead (.bind hkind.beforeGap)))
  refine .firstOf fun p hp => ?_
  simp only [declarations, List.mem_cons, List.not_mem_nil, or_false] at hp
  rcases hp with rfl | rfl | rfl | rfl | rfl | rfl | rfl
  · exact htypedef.map
  · exact halias.map
  · exact husing.map
  · exact henumeration.map
  · exact hrecord.map
  · exact hfunction.map
  · exact hvariable.map

theorem declarations_of_ne (htoken : StartsToken input)
    (hwords : ∀ word ∈ introducingWords, headWord input ≠ word.toList)
    (hfunction : Mismatches (function room) input) (hvariable : Mismatches (variableStatement room) input) :
    Mismatches (firstOf (declarations room (recordDefinitionWith room body))) input := by
  have hhead : ∀ word ∈ ["typedef", "using", "enum"], word ∈ introducingWords := by decide
  have hkind : ∀ word ∈ ["using", "class", "struct", "union"], word ∈ introducingWords := by decide
  have htemplate : Mismatches (templateHead room) input := templateHead_of_ne (hwords "template" (by decide))
  exact declarations_of_head htoken (opt_of_mismatch htemplate) (fun word hword => hwords word (hhead word hword))
    (fun word hword => hwords word (hkind word hword)) hfunction hvariable

theorem declarations_of_declaresNothing (hinput : DeclaresNothing input) :
    Mismatches (firstOf (declarations room (recordDefinitionWith room body))) input := by
  have hwords : ∀ word ∈ introducingWords, word.toList ∉ idleWords := by decide
  exact declarations_of_ne hinput.token (fun word hword => hinput.ne (hwords word hword)) hinput.function
    hinput.variableStatement

/-- What begins with one of these words is introduced by no other. -/
theorem introducingWords_ne {words : List String}
    (hwords : ∀ word ∈ words, ∀ other ∈ introducingWords, word.toList ≠ other.toList)
    (hinput : ∃ word ∈ words, headWord input = word.toList) : ∀ word ∈ introducingWords, headWord input ≠ word.toList := by
  obtain ⟨word, hword, heq⟩ := hinput
  exact fun other hother => heq ▸ hwords word hword other hother

theorem accessLabel_word {access : Access} (hlabel : accessLabel input = .ok access rest) :
    ∃ word ∈ ["public", "protected", "private", "signals", "Q_SIGNALS"], headWord input = word.toList := by
  obtain ⟨found, mid, hfound, -⟩ := bind_eq_ok.1 hlabel
  obtain ⟨p, hp, hok⟩ := firstOf_eq_ok hfound
  simp only [List.mem_cons, List.not_mem_nil, or_false] at hp
  rcases hp with rfl | rfl
  · obtain ⟨text, hword, -⟩ := map_eq_ok.1 hok
    obtain ⟨word, hmem, heq⟩ := headWord_of_anyKeyword (by decide) hword
    exact ⟨word, List.mem_append_left ["signals", "Q_SIGNALS"] hmem, heq⟩
  · obtain ⟨text, hword, -⟩ := map_eq_ok.1 hok
    obtain ⟨word, hmem, heq⟩ := headWord_of_anyKeyword (by decide) hword
    exact ⟨word, List.mem_append_right ["public", "protected", "private"] hmem, heq⟩

theorem staticAssertion_word {text : Text} (hassertion : staticAssertion input = .ok text rest) :
    ∃ word ∈ ["static_assert", "_Static_assert"], headWord input = word.toList := by
  unfold staticAssertion textOf at hassertion
  split at hassertion
  · next hok =>
    obtain ⟨word, mid, hword, -⟩ := bind_eq_ok.1 hok
    exact headWord_of_anyKeyword (by decide) hword
  · cases hassertion
  · cases hassertion

theorem number_of_directive {found : Directive} (hdirective : directive input = .ok found rest) :
    ∃ tail, input = '#' :: tail :=
  List.head?_eq_some_iff.1 (Decidable.byContradiction fun hne => (directive_of_ne hne).ne_ok hdirective)

/-- A template head may stand in front of a friend, so its word is not always the first one. -/
theorem friendClass_words {name : Text} (hfriend : friendClass room input = .ok name rest) :
    (∃ word ∈ ["template", "friend"], headWord input = word.toList) ∧
      ∃ params mid, opt (templateHead room) input = .ok params mid ∧ headWord mid = "friend".toList := by
  obtain ⟨params, mid, hhead, hok⟩ := bind_eq_ok.1 hfriend
  obtain ⟨word, behind, hword, -⟩ := bind_eq_ok.1 hok
  obtain ⟨text, last, hkeyword, -⟩ := bind_eq_ok.1 hword
  have hmid := headWord_of_keyword (by decide) hkeyword
  refine ⟨?_, params, mid, hhead, hmid⟩
  by_cases htemplate : headWord input = "template".toList
  · exact ⟨"template", by decide, htemplate⟩
  · rw [opt_of_mismatch (templateHead_of_ne htemplate)] at hhead
    cases hhead
    exact ⟨"friend", by decide, hmid⟩

/-- Where a label, an assertion or a friend is read, only a function or a variable might be read as well. -/
theorem declarations_of_overlapping {item : RecordItem} (htoken : StartsToken input)
    (hread : firstOf (overlapping room) input = .ok item rest) (hfunction : Mismatches (function room) input)
    (hvariable : Mismatches (variableStatement room) input) :
    Mismatches (firstOf (declarations room (recordDefinitionWith room body))) input := by
  obtain ⟨p, hp, hok⟩ := firstOf_eq_ok hread
  simp only [overlapping, List.mem_cons, List.not_mem_nil, or_false] at hp
  rcases hp with rfl | rfl | rfl
  · obtain ⟨access, hlabel, -⟩ := map_eq_ok.1 hok
    exact declarations_of_ne htoken (introducingWords_ne (by decide) (accessLabel_word hlabel)) hfunction hvariable
  · obtain ⟨text, hassertion, -⟩ := map_eq_ok.1 hok
    exact declarations_of_ne htoken (introducingWords_ne (by decide) (staticAssertion_word hassertion)) hfunction
      hvariable
  · obtain ⟨name, hfriend, -⟩ := map_eq_ok.1 hok
    obtain ⟨⟨word, hword, heq⟩, params, mid, hhead, hmid⟩ := friendClass_words hfriend
    have hfirst : ∀ word ∈ ["template", "friend"], ∀ other ∈ ["typedef", "using", "enum"],
        word.toList ≠ other.toList := by decide
    have hbehind : ∀ other ∈ ["using", "class", "struct", "union"], "friend".toList ≠ other.toList := by decide
    exact declarations_of_head htoken hhead (fun other hother => heq ▸ hfirst word hword other hother)
      (fun other hother => hmid ▸ hbehind other hother) hfunction hvariable

/-! ### Telling by the word in front -/

/-- The words that a label, an assertion or a friend may begin with. -/
def overlappingWords : List String :=
  ["public", "protected", "private", "signals", "Q_SIGNALS", "static_assert", "_Static_assert", "template", "friend"]

theorem overlapping_of_ne (hinput : ∀ word ∈ overlappingWords, headWord input ≠ word.toList) :
    Mismatches (firstOf (overlapping room)) input := by
  have hisWord : ∀ word ∈ overlappingWords, IsWord word := by decide
  have hkeyword {words : List String} (hmem : ∀ word ∈ words, word ∈ overlappingWords) :
      Mismatches (anyKeyword words) input :=
    anyKeyword_of_ne (fun word hword => hisWord word (hmem word hword)) fun word hword => hinput word (hmem word hword)
  have hlabel : Mismatches accessLabel input :=
    .bind (.firstOf_cons (hkeyword (by decide)).map (.firstOf_cons (hkeyword (by decide)).map .firstOf_nil))
  have hassertion : Mismatches staticAssertion input := .textOf (.bind (hkeyword (by decide)))
  have hfriend : Mismatches (friendClass room) input :=
    friendClass_of_ne (hinput "template" (by decide)) (hinput "friend" (by decide))
  exact .firstOf_cons hlabel.map (.firstOf_cons hassertion.map (.firstOf_cons hfriend.map .firstOf_nil))

/-- Only these words, which are not reserved or may stand in front of a name, leave it open what is read. -/
theorem unambiguous_of_ne (hinput : ∀ word ∈ ["signals", "Q_SIGNALS", "_Static_assert", "template", "friend"],
    headWord input ≠ word.toList) : Unambiguous room input := by
  by_cases hlabel : headWord input ∈ labelWords.map String.toList
  · have hnothing := DeclaresNothing.of_labelWord hlabel
    exact .inr ⟨hnothing.function, hnothing.variableStatement⟩
  · have hcases : ∀ word ∈ overlappingWords, word ∈ ["signals", "Q_SIGNALS", "_Static_assert", "template", "friend"] ∨
        word.toList ∈ labelWords.map String.toList := by decide
    refine .inl (overlapping_of_ne fun word hword heq => ?_)
    rcases hcases word hword with hopen | hreserved
    · exact hinput word hopen heq
    · exact hlabel (heq ▸ hreserved)

/-! ### In front of a slash -/

theorem undeclared_slash (room : Nat) (tail : Text) : Mismatches (firstOf (undeclared room)) ('/' :: tail) := by
  have hwords : ∀ word ∈ overlappingWords, [] ≠ word.toList := by decide
  have hsemicolon : Mismatches (char ';') ('/' :: tail) := char_of_ne (head?_cons_ne (by decide) tail)
  have hdirective : Mismatches directive ('/' :: tail) := directive_of_ne (head?_cons_ne (by decide) tail)
  refine .firstOf_cons hsemicolon.map (.firstOf_cons hdirective.map (overlapping_of_ne fun word hword => ?_))
  rw [headWord_of_endsWord (endsWord_cons (by decide) tail)]
  exact hwords word hword

theorem macroInvocation_slash (tail : Text) : Mismatches macroInvocation ('/' :: tail) := by
  have hname : Mismatches macroName ('/' :: tail) := (identifier_of_endsWord (endsWord_cons (by decide) tail)).filter
  exact .firstOf_cons (.textOf hname.bind) (.firstOf_cons (.textOf hname.bind) .firstOf_nil)

theorem remaining_slash {tail text : Text} (hcomment : comment ('/' :: tail) = .ok text rest) :
    firstOf remaining ('/' :: tail) = .ok .ignored rest := by
  rw [remaining, firstOf_of_mismatch (macroInvocation_slash tail).map]
  exact firstOf_of_ok (map_of_ok hcomment)

theorem startsToken_or_slash (hinput : ∀ c ∈ input.head?, isSpace c = false) :
    StartsToken input ∨ ∃ tail, input = '/' :: tail := by
  cases input with
  | nil => exact .inl startsToken_nil
  | cons c tail =>
    by_cases hc : c = '/'
    · exact .inr ⟨tail, by rw [hc]⟩
    · exact .inl (startsToken_cons (hinput c rfl) hc tail)

/-- A comment begins with a slash. -/
theorem slash_of_comment (hinput : ∀ c ∈ input.head?, isSpace c = false) {text : Text}
    (hcomment : comment input = .ok text rest) : ∃ tail, input = '/' :: tail := by
  rcases startsToken_or_slash hinput with htoken | hslash
  · exact absurd hcomment (comment_of_startsToken htoken).ne_ok
  · exact hslash

/-- Where something is read that is no declaration, no declaration would be read. -/
theorem declarations_of_undeclared (hinput : ∀ c ∈ input.head?, isSpace c = false) (hsettled : Unambiguous room input)
    {item : RecordItem} (hread : firstOf (undeclared room) input = .ok item rest) :
    Mismatches (firstOf (declarations room (recordDefinitionWith room body))) input := by
  rcases startsToken_or_slash hinput with htoken | ⟨tail, rfl⟩
  · have hoverlapping : overlapping room ≠ [] := List.cons_ne_nil _ _
    rcases (firstOf_append_eq_ok hoverlapping).1 hread with hread | ⟨-, hread⟩
    · obtain ⟨p, hp, hok⟩ := firstOf_eq_ok hread
      simp only [List.mem_cons, List.not_mem_nil, or_false] at hp
      rcases hp with rfl | rfl
      · obtain ⟨symbol, hsymbol, -⟩ := map_eq_ok.1 hok
        obtain ⟨-, rfl⟩ := char_eq_ok.1 hsymbol
        exact declarations_of_declaresNothing (.cons (by decide) (by decide) (by decide) (by decide) rest)
      · obtain ⟨found, hdirective, -⟩ := map_eq_ok.1 hok
        obtain ⟨tail, rfl⟩ := number_of_directive hdirective
        exact declarations_of_declaresNothing (.cons (by decide) (by decide) (by decide) (by decide) tail)
    · rcases hsettled with hnone | ⟨hfunction, hvariable⟩
      · exact absurd hread hnone.ne_ok
      · exact declarations_of_overlapping htoken hread hfunction hvariable
  · exact absurd hread (undeclared_slash room tail).ne_ok

end RecordItem

end HeaderOutline
