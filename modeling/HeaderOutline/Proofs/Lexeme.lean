import HeaderOutline.Lexeme.Attribute
import HeaderOutline.Proofs.Parser.Reading
/-!
# Reading tokens

What gaps, words and keywords do on a text that is known up to its next token. A text is described by its
front only: it starts a token, it ends a word, or its first word is some text.
-/

namespace HeaderOutline

open HeaderOutline.Parser

variable {α : Type} {p : Parser α} {input mid rest : Text} {a : α}

/-- A property of the characters of a text is decided on these alone, not on all characters that there are. -/
instance (priority := high) {property : Char → Prop} [DecidablePred property] (s : Text) : Decidable (∀ c ∈ s, property c) :=
  List.decidableBAll property s

instance (priority := high) decidableForallMemOption {property : Char → Prop} [DecidablePred property] (c? : Option Char) :
    Decidable (∀ c ∈ c?, property c) := Option.decidableForallMem c?

/-! ### Gaps -/

/-- Neither white space nor a comment comes next. -/
def StartsToken (input : Text) : Prop := ∀ c ∈ input.head?, isSpace c = false ∧ c ≠ '/'

/-- Nothing but white space between tokens. -/
def IsSpaces (s : Text) : Prop := ∀ c ∈ s, isSpace c = true

instance (s : Text) : Decidable (IsSpaces s) := inferInstanceAs (Decidable (∀ c ∈ s, _))

theorem isSpaces_one : IsSpaces [' '] := by decide

theorem isSpaces_takeWhile (input : Text) : IsSpaces (input.takeWhile isSpace) := List.all_eq_true.1 List.all_takeWhile

theorem startsToken_nil : StartsToken [] := nofun

theorem startsToken_cons {c : Char} (hspace : isSpace c = false) (hslash : c ≠ '/') (rest : Text) :
    StartsToken (c :: rest) := by
  rintro d ⟨⟩
  exact ⟨hspace, hslash⟩

theorem behindComment?_of_ne {c : Char} (hc : c ≠ '/') (rest : Text) : behindComment? (c :: rest) = none := by
  unfold behindComment?
  split
  · next heq => exact absurd (List.head_eq_of_cons_eq heq) hc
  · next heq => exact absurd (List.head_eq_of_cons_eq heq) hc
  · rfl

theorem gapEnd_of_behindComment? {behind : Text} (hcomment : behindComment? input = some behind) :
    gapEnd input = gapEnd behind := by
  cases input with
  | nil => cases hcomment
  | cons c input =>
    have hc : c = '/' := by
      refine Decidable.byContradiction fun hne => ?_
      rw [behindComment?_of_ne hne] at hcomment
      cases hcomment
    subst hc
    rw [gapEnd, if_neg (by decide)]
    split
    · next other hother => rw [Option.some.inj (hother.symm.trans hcomment)]
    · next hnone => rw [hnone] at hcomment; cases hcomment

/-- Where neither white space nor a complete comment begins, nothing is skipped. -/
theorem gapEnd_of_no_comment {c : Char} {rest : Text} (hspace : isSpace c = false)
    (hcomment : behindComment? (c :: rest) = none) : gapEnd (c :: rest) = c :: rest := by
  rw [gapEnd, if_neg (Bool.eq_false_iff.1 hspace)]
  split
  · next heq =>
    rw [hcomment] at heq
    cases heq
  · rfl

theorem gapEnd_of_startsToken (hinput : StartsToken input) : gapEnd input = input := by
  cases input with
  | nil => rw [gapEnd]
  | cons c rest =>
    obtain ⟨hspace, hslash⟩ := hinput c rfl
    exact gapEnd_of_no_comment hspace (behindComment?_of_ne hslash rest)

theorem gapEnd_append {spaces : Text} (hspaces : IsSpaces spaces) (input : Text) :
    gapEnd (spaces ++ input) = gapEnd input := by
  induction spaces with
  | nil => rfl
  | cons c spaces ih =>
    rw [List.cons_append, gapEnd, if_pos (hspaces c List.mem_cons_self)]
    exact ih fun d hd => hspaces d (List.mem_cons_of_mem c hd)

theorem gapEnd_dropWhile (input : Text) : gapEnd (input.dropWhile isSpace) = gapEnd input := by
  rw [← gapEnd_append (isSpaces_takeWhile input), List.takeWhile_append_dropWhile]

theorem gapEnd_append_token {spaces : Text} (hspaces : IsSpaces spaces) (hinput : StartsToken input) :
    gapEnd (spaces ++ input) = input := by
  rw [gapEnd_append hspaces, gapEnd_of_startsToken hinput]

theorem gapEnd_cons {c : Char} (hspace : isSpace c = false) (hslash : c ≠ '/') (rest : Text) :
    gapEnd (c :: rest) = c :: rest := gapEnd_of_startsToken (startsToken_cons hspace hslash rest)

theorem gapEnd_append_cons {spaces : Text} (hspaces : IsSpaces spaces) {c : Char} (hspace : isSpace c = false)
    (hslash : c ≠ '/') (rest : Text) : gapEnd (spaces ++ c :: rest) = c :: rest :=
  gapEnd_append_token hspaces (startsToken_cons hspace hslash rest)

theorem dropWhile_of_head (hinput : ∀ c ∈ input.head?, isSpace c = false) : input.dropWhile isSpace = input := by
  cases input with
  | nil => rfl
  | cons c tail => exact List.dropWhile_cons_of_neg (Bool.eq_false_iff.1 (hinput c rfl))

theorem dropWhile_isSpace_append {spaces : Text} (hspaces : IsSpaces spaces) (hinput : StartsToken input) :
    (spaces ++ input).dropWhile isSpace = input := by
  rw [List.dropWhile_append_of_pos hspaces]
  exact dropWhile_of_head fun c hc => (hinput c hc).1

theorem spaces0_append {spaces : Text} (hspaces : IsSpaces spaces) (hinput : StartsToken input) :
    ∃ text, spaces0 (spaces ++ input) = .ok text input :=
  ⟨(spaces ++ input).takeWhile isSpace, by
    rw [spaces0, Parser.takeWhile, dropWhile_isSpace_append hspaces hinput]⟩

theorem skipGap_apply (input : Text) : skipGap input = .ok () (gapEnd input) := rfl

theorem afterGap_apply (p : Parser α) (input : Text) : afterGap p input = p (gapEnd input) := rfl

theorem afterGap_char {c : Char} (hinput : gapEnd input = c :: rest) : afterGap (char c) input = .ok c rest := by
  rw [afterGap_apply, hinput]
  exact char_cons c rest

theorem beforeGap_of_ok (hp : p input = .ok a mid) : beforeGap p input = .ok a (gapEnd mid) := by
  rw [beforeGap, bind_of_ok hp]
  rfl

theorem beforeGap_eq_ok : beforeGap p input = .ok a rest ↔ ∃ mid, p input = .ok a mid ∧ gapEnd mid = rest := by
  constructor
  · intro h
    obtain ⟨_, mid, hp, hrest⟩ := bind_eq_ok.1 h
    cases hrest
    exact ⟨mid, hp, rfl⟩
  · rintro ⟨mid, hp, rfl⟩
    exact beforeGap_of_ok hp

theorem spaced_of_ok (hp : p (gapEnd input) = .ok a mid) : spaced p input = .ok a (gapEnd mid) := beforeGap_of_ok hp

theorem Parser.Mismatches.afterGap (hp : Mismatches p (gapEnd input)) : Mismatches (afterGap p) input := hp

theorem Parser.Mismatches.beforeGap (hp : Mismatches p input) : Mismatches (beforeGap p) input := hp.bind

theorem Parser.Mismatches.spaced (hp : Mismatches p (gapEnd input)) : Mismatches (spaced p) input := hp.beforeGap

/-! ### Words -/

/-- No word goes on here. -/
def EndsWord (rest : Text) : Prop := ∀ c ∈ rest.head?, isWordChar c = false

/-- A letter or underscore, then word characters. -/
def isIdentifier : Text → Bool
  | [] => false
  | c :: rest => isWordStart c && rest.all isWordChar

/-- An identifier that may name a type or a declaration. -/
def isPlainName (word : Text) : Bool := isIdentifier word && !isReserved word

/-- The word characters at the front. -/
def headWord (input : Text) : Text := input.takeWhile isWordChar

theorem isWordChar_of_isWordStart {c : Char} (hc : isWordStart c = true) : isWordChar c = true := by
  unfold isWordStart at hc
  unfold isWordChar
  rw [Bool.or_eq_true] at hc ⊢
  exact hc.imp_left fun hletter => by rw [hletter]; rfl

theorem isWordChar_of_isSpace {c : Char} (hspace : isSpace c = true) : isWordChar c = false := by
  simp only [isSpace, Bool.or_eq_true, beq_iff_eq] at hspace
  rcases hspace with ((rfl | rfl) | rfl) | rfl <;> decide

theorem isIdentifier_of_isPlainName {word : Text} (hword : isPlainName word = true) : isIdentifier word = true :=
  (Bool.and_eq_true_iff.1 hword).1

theorem isWordChar_of_isIdentifier {word : Text} (hword : isIdentifier word = true) :
    ∀ c ∈ word, isWordChar c = true := by
  cases word with
  | nil => nofun
  | cons d tail =>
    obtain ⟨hd, htail⟩ := Bool.and_eq_true_iff.1 hword
    intro c hc
    cases hc with
    | head => exact isWordChar_of_isWordStart hd
    | tail _ hc => exact List.all_eq_true.1 htail c hc

theorem takeWhile_of_endsWord (hrest : EndsWord rest) : rest.takeWhile isWordChar = [] := by
  cases rest with
  | nil => rfl
  | cons c rest => exact List.takeWhile_cons_of_neg (Bool.eq_false_iff.1 (hrest c rfl))

theorem dropWhile_of_endsWord (hrest : EndsWord rest) : rest.dropWhile isWordChar = rest := by
  cases rest with
  | nil => rfl
  | cons c rest => exact List.dropWhile_cons_of_neg (Bool.eq_false_iff.1 (hrest c rfl))

theorem headWord_append {word : Text} (hword : ∀ c ∈ word, isWordChar c = true) (hrest : EndsWord rest) :
    headWord (word ++ rest) = word := by
  rw [headWord, List.takeWhile_append_of_pos hword, takeWhile_of_endsWord hrest, List.append_nil]

theorem headWord_of_endsWord (hrest : EndsWord rest) : headWord rest = [] := takeWhile_of_endsWord hrest

theorem endsWord_of_headWord (hinput : headWord input = []) : EndsWord input := by
  intro c hc
  obtain ⟨tail, rfl⟩ := List.head?_eq_some_iff.1 hc
  refine Bool.eq_false_iff.2 fun hword => ?_
  rw [headWord, List.takeWhile_cons_of_pos hword] at hinput
  cases hinput

theorem identifier_append {word : Text} (hword : isIdentifier word = true) (hrest : EndsWord rest) :
    identifier (word ++ rest) = .ok word rest := by
  cases word with
  | nil => cases hword
  | cons c tail =>
    obtain ⟨hc, htail⟩ := Bool.and_eq_true_iff.1 hword
    have htail := List.all_eq_true.1 htail
    rw [List.cons_append, identifier, if_pos hc, List.takeWhile_append_of_pos htail, takeWhile_of_endsWord hrest,
      List.append_nil, List.dropWhile_append_of_pos htail, dropWhile_of_endsWord hrest]

theorem endsWord_dropWhile (input : Text) : EndsWord (input.dropWhile isWordChar) := by
  intro c hc
  have hhead := List.head?_dropWhile_not isWordChar input
  rw [hc] at hhead
  exact hhead

theorem identifier_eq_ok {word : Text} :
    identifier input = .ok word rest ↔ input = word ++ rest ∧ isIdentifier word = true ∧ EndsWord rest := by
  refine ⟨fun hread => ?_, fun ⟨hinput, hword, hrest⟩ => hinput ▸ identifier_append hword hrest⟩
  unfold identifier at hread
  split at hread
  · next c tail =>
    split at hread
    · next hc =>
      cases hread
      refine ⟨?_, Bool.and_eq_true_iff.2 ⟨hc, List.all_takeWhile⟩, endsWord_dropWhile tail⟩
      rw [List.cons_append, List.takeWhile_append_dropWhile]
    · cases hread
  · cases hread

theorem identifier_of_not_start (hinput : ∀ c ∈ input.head?, isWordStart c = false) :
    Mismatches identifier input := by
  cases input with
  | nil => exact ⟨_, rfl⟩
  | cons c rest => exact ⟨_, if_neg (Bool.eq_false_iff.1 (hinput c rfl))⟩

theorem identifier_of_endsWord (hinput : EndsWord input) : Mismatches identifier input := by
  refine identifier_of_not_start fun c hc => Bool.eq_false_iff.2 fun hstart => ?_
  have hword : isWordChar c = true := isWordChar_of_isWordStart hstart
  rw [hinput c hc] at hword
  cases hword

theorem identifier_cases (input : Text) :
    Mismatches identifier input ∨ identifier input = .ok (headWord input) (input.dropWhile isWordChar) := by
  cases input with
  | nil => exact .inl ⟨_, rfl⟩
  | cons c rest =>
    cases hc : isWordStart c with
    | false => exact .inl (identifier_of_not_start (by rintro d ⟨⟩; exact hc))
    | true =>
      have hword := isWordChar_of_isWordStart hc
      rw [identifier, if_pos hc, headWord, List.takeWhile_cons_of_pos hword, List.dropWhile_cons_of_pos hword]
      exact .inr rfl

theorem plainName_append {word : Text} (hword : isPlainName word = true) (hrest : EndsWord rest) :
    plainName (word ++ rest) = .ok word rest := by
  obtain ⟨hidentifier, hplain⟩ := Bool.and_eq_true_iff.1 hword
  exact filter_of_ok (identifier_append hidentifier hrest) hplain

theorem plainName_of_isReserved {word : Text} (hword : isIdentifier word = true) (hreserved : isReserved word = true)
    (hrest : EndsWord rest) : Mismatches plainName (word ++ rest) :=
  .filter_of_ok (identifier_append hword hrest) (by rw [hreserved]; rfl)

theorem macroName_append {word : Text} (hword : isIdentifier word = true) (hcapitals : isMacroName word = true)
    (hrest : EndsWord rest) : macroName (word ++ rest) = .ok word rest :=
  filter_of_ok (identifier_append hword hrest) hcapitals

/-! ### Keywords -/

/-- Made of word characters, as every keyword is. -/
def IsWord (word : String) : Prop := ∀ c ∈ word.toList, isWordChar c = true

instance (word : String) : Decidable (IsWord word) := inferInstanceAs (Decidable (∀ c ∈ word.toList, _))

theorem keyword_append (word : String) (hrest : EndsWord rest) :
    keyword word (word.toList ++ rest) = .ok word.toList rest := by
  rw [keyword, bind_of_ok (literal_append word rest),
    bind_of_ok (notFollowedBy_of_mismatch (satisfy_of_not hrest))]
  rfl

theorem keyword_of_ne {word : String} (hword : IsWord word) (hinput : headWord input ≠ word.toList) :
    Mismatches (keyword word) input := by
  cases hafter : Text.after? word.toList input with
  | none => exact Mismatches.bind ⟨[⟨input, .rule .literal⟩], by rw [literal, hafter]⟩
  | some rest =>
    obtain rfl := Text.after?_eq_some_iff.1 hafter
    refine Mismatches.bind_of_ok (literal_append word rest) (Mismatches.bind ?_)
    cases rest with
    | nil => exact absurd (headWord_append hword (fun c hc => by cases hc)) hinput
    | cons c rest =>
      -- The word ends in front of `c` unless `c` is a word character itself.
      cases hc : isWordChar c with
      | false =>
        refine absurd (headWord_append hword ?_) hinput
        rintro d ⟨⟩
        exact hc
      | true => exact .notFollowedBy (satisfy_cons hc rest)

theorem anyKeyword_of_ne {words : List String} (hwords : ∀ word ∈ words, IsWord word)
    (hinput : ∀ word ∈ words, headWord input ≠ word.toList) : Mismatches (anyKeyword words) input := by
  refine Mismatches.firstOf fun p hp => ?_
  obtain ⟨word, hword, rfl⟩ := List.mem_map.1 hp
  exact keyword_of_ne (hwords word hword) (hinput word hword)

theorem anyKeyword_append {words : List String} (hwords : ∀ word ∈ words, IsWord word) {word : String}
    (hword : word ∈ words) (hrest : EndsWord rest) :
    anyKeyword words (word.toList ++ rest) = .ok word.toList rest := by
  obtain ⟨before, after, rfl, hnot⟩ := List.eq_append_cons_of_mem hword
  rw [anyKeyword, List.map_append, List.map_cons]
  refine firstOf_append_of_ok (fun p hp => ?_) (keyword_append word hrest)
  obtain ⟨other, hother, rfl⟩ := List.mem_map.1 hp
  refine keyword_of_ne (hwords other (List.mem_append_left _ hother)) fun heq => hnot ?_
  rw [headWord_append (hwords word hword) hrest] at heq
  exact String.toList_inj.1 heq ▸ hother

theorem headWord_of_keyword {word : String} (hword : IsWord word) {text : Text} (hok : keyword word input = .ok text rest) :
    headWord input = word.toList := Decidable.byContradiction fun hne => (keyword_of_ne hword hne).ne_ok hok

theorem headWord_of_anyKeyword {words : List String} (hwords : ∀ word ∈ words, IsWord word) {text : Text}
    (hok : anyKeyword words input = .ok text rest) : ∃ word ∈ words, headWord input = word.toList := by
  obtain ⟨p, hp, hok⟩ := firstOf_eq_ok hok
  obtain ⟨word, hword, rfl⟩ := List.mem_map.1 hp
  exact ⟨word, hword, headWord_of_keyword (hwords word hword) hok⟩

theorem headWord_append_dropWhile (input : Text) : headWord input ++ input.dropWhile isWordChar = input :=
  List.takeWhile_append_dropWhile

theorem keyword_of_eq {word : String} (hinput : headWord input = word.toList) :
    keyword word input = .ok word.toList (input.dropWhile isWordChar) := by
  have hread := keyword_append word (endsWord_dropWhile input)
  rw [← hinput, headWord_append_dropWhile] at hread
  rw [hread, hinput]

theorem anyKeyword_of_eq {words : List String} (hwords : ∀ word ∈ words, IsWord word) {word : String}
    (hword : word ∈ words) (hinput : headWord input = word.toList) :
    anyKeyword words input = .ok word.toList (input.dropWhile isWordChar) := by
  have hread := anyKeyword_append hwords hword (endsWord_dropWhile input)
  rw [← hinput, headWord_append_dropWhile] at hread
  rw [hread, hinput]

end HeaderOutline
