import HeaderOutline.Lexeme.Attribute
import HeaderOutline.Proofs.Lexeme.Place
import HeaderOutline.Proofs.Parser.Related
/-!
# Lexemes of a text with two ends

Two runs read the same closed text, in front of one end in one run and in front of another end in the other one. A parser
that only looks at the text is *blind* for the end, and does the same in both runs. This module has the lexemes. None of
them comes to the end of a closed text, except that an expression may end there.
-/

namespace HeaderOutline

open HeaderOutline.Parser

variable {α β : Type} {ends : EndPair} {strict : Bool} {opened opened' : List Char} {P Q : Text → Prop}

/-- The rest of a text in front of either end. -/
inductive Fork (ends : EndPair) (P : Text → Prop) : Text → Text → Prop
  | intro {text : Text} (htext : P text) : Fork ends P (text ++ ends.stop :: ends.back) (text ++ ends.stop' :: ends.back')

theorem Fork.mono (hmono : ∀ {text}, P text → Q text) {input input' : Text} (hinput : Fork ends P input input') :
    Fork ends Q input input' := by
  cases hinput with
  | intro htext => exact .intro (hmono htext)

theorem Fork.measured : Measured (Fork ends P) (Fork ends Q) := by
  rintro _ _ _ _ ⟨_⟩ ⟨_⟩
  simp only [List.length_append, List.length_cons]
  omega

namespace Parser

/-- In front of either end, the parsers do the same on a text with `P`, and leave a text with `Q`. -/
abbrev Forks (ends : EndPair) (P Q : Text → Prop) (p q : Parser α) : Prop := Relates (Fork ends P) (Fork ends Q) p q

/-- Whatever the end is, the parser reads the same of a text with `P`, and leaves a text with `Q`. -/
structure Blind (ends : EndPair) (P Q : Text → Prop) (p : Parser α) : Prop where
  cases : ∀ {text}, P text → (∃ a rest, Q rest ∧ ∀ tail, ends.IsTail tail → p (text ++ tail) = .ok a (rest ++ tail)) ∨
    ∀ tail, ends.IsTail tail → Mismatches p (text ++ tail)

theorem Blind.forks {p : Parser α} (hp : Blind ends P Q p) : Forks ends P Q p p where
  outcome hinput := by
    cases hinput with
    | intro htext =>
      rcases hp.cases htext with ⟨a, rest, hrest, hread⟩ | hmismatch
      · rw [hread _ (.inl rfl), hread _ (.inr rfl)]
        exact .ok (.intro hrest)
      · obtain ⟨trace, hp⟩ := hmismatch _ (.inl rfl)
        obtain ⟨trace', hp'⟩ := hmismatch _ (.inr rfl)
        rw [hp, hp']
        exact .mismatch

theorem Blind.mono {P' Q' : Text → Prop} {p : Parser α} (hp : Blind ends P Q p) (hP : ∀ {text}, P' text → P text)
    (hQ : ∀ {text}, Q text → Q' text) : Blind ends P' Q' p where
  cases htext := (hp.cases (hP htext)).imp_left fun ⟨a, rest, hrest, hread⟩ => ⟨a, rest, hQ hrest, hread⟩

namespace Forks

variable {R : Text → Prop} {p q : Parser α} {separator separator' : Parser β}

theorem opt (hp : Forks ends P Q p q) (hmono : ∀ {text}, P text → Q text) : Forks ends P Q (opt p) (opt q) :=
  Relates.opt hp (Fork.mono hmono)

theorem textOf (hp : Forks ends P Q p q) : Forks ends P Q (textOf p) (textOf q) := by
  refine Relates.textOf hp ?_
  rintro _ _ _ _ ⟨_⟩ ⟨_⟩
  simp only [List.length_append, List.length_cons, Nat.add_sub_add_right]
  rw [List.take_append_of_le_length (Nat.sub_le ..), List.take_append_of_le_length (Nat.sub_le ..)]

theorem many (hp : Forks ends P P p q) : Forks ends P P (many p) (many q) := Relates.many hp Fork.measured

theorem sepBy1 (hfirst : Forks ends R P p q) (hseparator : Forks ends P Q separator separator')
    (hp : Forks ends Q P p q) : Forks ends R P (sepBy1 separator p) (sepBy1 separator' q) :=
  Relates.sepBy1 hfirst hseparator hp Fork.measured

theorem sepBy (hfirst : Forks ends R P p q) (hseparator : Forks ends P Q separator separator')
    (hp : Forks ends Q P p q) (hmono : ∀ {text}, R text → P text) :
    Forks ends R P (sepBy separator p) (sepBy separator' q) :=
  Relates.sepBy hfirst hseparator hp Fork.measured (Fork.mono hmono)

end Forks

end Parser

/-! ### Gaps -/

/-- Behind the gap the text has the property again. -/
class SkipsGap (ends : EndPair) (P : Text → Prop) : Prop where
  blind : Blind ends P P skipGap

instance : SkipsGap ends (IsPlace strict opened) where
  blind.cases htext := by
    obtain ⟨rest, hrest, hgap⟩ := htext.exists_gapEnd
    exact .inl ⟨(), rest, hrest.elim (fun heq => heq ▸ htext) IsStart.isPlace, fun tail htail => by rw [skipGap, hgap tail htail.isEnd]⟩

instance : SkipsGap ends (IsStart strict opened) where
  blind.cases htext := by
    obtain ⟨rest, hrest, hgap⟩ := htext.isPlace.exists_gapEnd
    exact .inl ⟨(), rest, hrest.elim (fun heq => heq ▸ htext) id, fun tail htail => by rw [skipGap, hgap tail htail.isEnd]⟩

section Gap

variable {p q : Parser α}

theorem afterGap_forks {S : Text → Text → Prop} [hP : SkipsGap ends P] (hp : Relates (Fork ends P) S p q) :
    Relates (Fork ends P) S (afterGap p) (afterGap q) := hP.blind.forks.bind fun _ => hp

theorem beforeGap_forks [hQ : SkipsGap ends Q] (hp : Forks ends P Q p q) : Forks ends P Q (beforeGap p) (beforeGap q) :=
  hp.bind fun a => hQ.blind.forks.bind fun _ => .pure a

theorem spaced_forks [SkipsGap ends P] [SkipsGap ends Q] (hp : Forks ends P Q p q) : Forks ends P Q (spaced p) (spaced q) :=
  afterGap_forks (beforeGap_forks hp)

end Gap

/-! ### Characters -/

theorem char_blind {c : Char} (hend : P [] → ends.Lacks c) (hrest : ∀ {rest}, P (c :: rest) → Q rest) : Blind ends P Q (char c) where
  cases {text} htext := by
    cases text with
    | nil => exact .inr fun tail htail => char_of_ne ((hend htext).head htail)
    | cons d text =>
      by_cases hd : d = c
      · subst hd
        exact .inl ⟨d, text, hrest htext, fun tail _ => char_cons d (text ++ tail)⟩
      · exact .inr fun tail _ => char_of_ne (head?_cons_ne hd (text ++ tail))

theorem satisfy_blind {property : Char → Bool} (hend : ∀ c ∈ [';', ',', '{', '}'], property c = false)
    (hrest : ∀ {c rest}, property c = true → P (c :: rest) → Q rest) : Blind ends P Q (satisfy property) where
  cases {text} htext := by
    cases text with
    | nil => exact .inr fun tail htail => satisfy_of_not (htail.isEnd.head hend)
    | cons c text =>
      cases hc : property c with
      | true => exact .inl ⟨c, text, hrest hc htext, fun tail _ => satisfy_cons hc (text ++ tail)⟩
      | false => exact .inr fun tail _ => satisfy_of_not (by rintro d ⟨⟩; exact hc)

/-- An opening bracket. -/
theorem char_opener_blind {c : Char} (hc : c ∈ ['(', '[', '{']) (hend : opened = [] → ends.Lacks c) :
    Blind ends (IsPlace strict opened) (IsStart strict (c :: opened)) (char c) := by
  refine char_blind (fun hnil => hend ?_) fun htext => ?_
  · exact Decidable.byContradiction fun hopened => hnil.ne_nil hopened rfl
  · have hcode : c ∉ ['\'', '"', '/'] ∧ Scan.isNumberChar c = false := by
      simp only [List.mem_cons, List.not_mem_nil, or_false] at hc
      rcases hc with rfl | rfl | rfl <;> decide
    refine htext.start_behind (Scan.isCode_of_ne hcode.1 _) hcode.2 fun hstep hopened => ?_
    rw [hstep.eq_cons (.inl hc)]
    exact hopened.cons_cons c

/-- The bracket that closes the innermost one. -/
theorem char_closer_blind {opener c : Char} (hpair : IsBracketPair opener c) :
    Blind ends (IsPlace strict (opener :: opened)) (IsPlace strict opened) (char c) := by
  refine char_blind (fun hnil => absurd rfl (hnil.ne_nil (List.cons_ne_nil _ _))) fun htext => ?_
  have hcode : c ∉ ['\'', '"', '/'] := by
    rcases hpair.cases with ⟨-, rfl⟩ | ⟨-, rfl⟩ | ⟨-, rfl⟩ <;> decide
  exact htext.behind (Scan.isCode_of_ne hcode _) BracketStep.sublist_of_cons

theorem char_inert_blind {c : Char} (hc : IsInert c) (hend : opened = [] → ends.Lacks c) :
    Blind ends (IsPlace strict opened) (IsPlace strict opened) (char c) := by
  refine char_blind (fun hnil => hend ?_) fun htext => htext.behind (hc.isCode _) hc.sublist
  exact Decidable.byContradiction fun hopened => hnil.ne_nil hopened rfl

/-- A sign that is no bracket. -/
theorem char_sign_blind {c : Char} (hc : IsInert c) (hnumber : Scan.isNumberChar c = false) (hend : opened = [] → ends.Lacks c) :
    Blind ends (IsPlace strict opened) (IsStart strict opened) (char c) := by
  refine char_blind (fun hnil => hend ?_) fun htext => htext.start_behind (hc.isCode _) hnumber hc.sublist
  exact Decidable.byContradiction fun hopened => hnil.ne_nil hopened rfl

/-! ### Words -/

theorem literal_blind {word : String} (hend : ∀ c ∈ [';', ',', '{', '}'], c ∉ word.toList)
    (hrest : ∀ {rest}, P (word.toList ++ rest) → Q rest) : Blind ends P Q (literal word) where
  cases {text} htext := by
    have hafter (tail : Text) (htail : ends.IsTail tail) :
        Text.after? word.toList (text ++ tail) = (Text.after? word.toList text).map (· ++ tail) :=
      Text.after?_append (htail.isEnd.head hend) text
    unfold Mismatches literal
    cases hword : Text.after? word.toList text with
    | some rest =>
      rw [Text.after?_eq_some_iff.1 hword] at htext
      exact .inl ⟨word.toList, rest, hrest htext, fun tail htail => by rw [hafter tail htail, hword]; rfl⟩
    | none => exact .inr fun tail htail => by rw [hafter tail htail, hword]; exact ⟨_, rfl⟩

/-- Signs and letters, none of which is a bracket, a quotation mark or an end. -/
def IsInertWord (word : String) : Prop := ∀ c ∈ word.toList, IsInert c ∧ c ∉ [';', ',']

instance (word : String) : Decidable (IsInertWord word) := inferInstanceAs (Decidable (∀ c ∈ word.toList, _))

theorem IsInertWord.not_mem {word : String} (hword : IsInertWord word) : ∀ c ∈ [';', ',', '{', '}'], c ∉ word.toList := by
  intro c hc hmem
  obtain ⟨hinert, hne⟩ := hword c hmem
  simp only [List.mem_cons, List.not_mem_nil, or_false] at hc
  rcases hc with rfl | rfl | rfl | rfl
  · exact hne (by decide)
  · exact hne (by decide)
  · exact absurd hinert (by decide)
  · exact absurd hinert (by decide)

theorem literal_word_blind {word : String} (hword : IsInertWord word) :
    Blind ends (IsPlace strict opened) (IsPlace strict opened) (literal word) :=
  literal_blind hword.not_mem fun htext => htext.of_append fun c hc => (hword c hc).1

/-- A string literal as a word. -/
theorem literal_string_blind {word : String} (content : Text) (hword : word.toList = '"' :: (content ++ ['"']))
    (hcontent : ∀ c ∈ content, c ∉ ['\\', '"', ';', ',', '\x7b', '\x7d']) :
    Blind ends (IsPlace strict opened) (IsPlace strict opened) (literal word) := by
  refine literal_blind ?_ fun htext => ?_
  · intro c hc hmem
    rw [hword] at hmem
    simp only [List.mem_cons, List.mem_append, List.not_mem_nil, or_false] at hc hmem
    rcases hmem with rfl | hmem | rfl
    · revert hc
      decide
    · exact hcontent c hmem (by simp only [List.mem_cons]; tauto)
    · revert hc
      decide
  · rw [hword, List.cons_append, List.append_assoc] at htext
    exact htext.behind_string fun c hc hmem => hcontent c hc (by simp only [List.mem_cons] at hmem ⊢; tauto)

/-- A word, behind which the text may be known to have a property. -/
theorem keyword_forks {word : String} (hword : Blind ends P Q (literal word)) : Forks ends P Q (keyword word) (keyword word) := by
  have hend : Blind ends Q (fun _ => True) (satisfy isWordChar) := satisfy_blind (by decide) fun _ _ => trivial
  exact hword.forks.bind fun text => hend.forks.notFollowedBy.bind fun _ => .pure text

theorem keyword_word_forks {word : String} (hword : IsInertWord word) :
    Forks ends (IsPlace strict opened) (IsPlace strict opened) (keyword word) (keyword word) :=
  keyword_forks (literal_word_blind hword)

theorem anyKeyword_forks {words : List String} (hwords : ∀ word ∈ words, IsInertWord word) :
    Forks ends (IsPlace strict opened) (IsPlace strict opened) (anyKeyword words) (anyKeyword words) := by
  refine .firstOf ?_
  rw [List.forall₂_map_left_iff, List.forall₂_map_right_iff, List.forall₂_same]
  exact fun word hword => keyword_word_forks (hwords word hword)

/-- A run of characters that are no brackets. -/
theorem IsPlace.behind_run {property : Char → Bool} {c : Char} {text : Text} (hproperty : ∀ d, property d = true → IsInert d)
    (hc : property c = true) (htext : IsPlace strict opened (c :: text)) : IsPlace strict opened (text.dropWhile property) := by
  have hrun : IsPlace strict opened ((c :: text.takeWhile property) ++ text.dropWhile property) := by
    rw [List.cons_append, List.takeWhile_append_dropWhile]
    exact htext
  refine hrun.of_append fun d hd => hproperty d ?_
  rcases List.mem_cons.1 hd with rfl | hd
  · exact hc
  · exact List.all_eq_true.1 List.all_takeWhile d hd

/-- A word ends in the text. -/
theorem identifier_reads (hrest : ∀ {c text}, isWordChar c = true → P (c :: text) → Q (text.dropWhile isWordChar)) :
    Blind ends P Q identifier where
  cases {text} htext := by
    cases text with
    | nil => exact .inr fun tail htail => identifier_of_not_start (htail.isEnd.head (by decide))
    | cons c text =>
      cases hc : isWordStart c with
      | false => exact .inr fun tail _ => identifier_of_not_start (by rintro d ⟨⟩; exact hc)
      | true =>
        refine .inl ⟨c :: text.takeWhile isWordChar, _, hrest (isWordChar_of_isWordStart hc) htext, fun tail htail => ?_⟩
        rw [List.cons_append, identifier, if_pos hc, takeWhile_append_of_head htail.isEnd.endsWord, dropWhile_append_of_head htail.isEnd.endsWord]

theorem identifier_blind : Blind ends (IsPlace strict opened) (IsPlace strict opened) identifier :=
  identifier_reads fun hc htext => htext.behind_run (fun _ => isInert_of_isWordChar) hc

theorem plainName_forks : Forks ends (IsPlace strict opened) (IsPlace strict opened) plainName plainName :=
  identifier_blind.forks.filter _

section Run

variable {property : Char → Bool}

theorem IsPlace.behind_takeWhile {text : Text} (hproperty : ∀ c, property c = true → IsInert c) (htext : IsPlace strict opened text) :
    IsPlace strict opened (text.dropWhile property) := by
  cases text with
  | nil => exact htext
  | cons c text =>
    cases hc : property c with
    | true =>
      rw [List.dropWhile_cons_of_pos hc]
      exact htext.behind_run hproperty hc
    | false => rwa [List.dropWhile_cons_of_neg (Bool.eq_false_iff.1 hc)]

theorem takeWhile_blind (hproperty : ∀ c, property c = true → IsInert c) (hend : ∀ c ∈ [';', ',', '{', '}'], property c = false) :
    Blind ends (IsPlace strict opened) (IsPlace strict opened) (takeWhile property) where
  cases {text} htext := by
    refine .inl ⟨text.takeWhile property, _, htext.behind_takeWhile hproperty, fun tail htail => ?_⟩
    rw [takeWhile, takeWhile_append_of_head (htail.isEnd.head hend), dropWhile_append_of_head (htail.isEnd.head hend)]

/-- A run of such characters ends in the text. -/
theorem takeWhile1_reads (rule : Rule) (hend : ∀ c ∈ [ends.stop, ends.stop'], property c = false)
    (hrest : ∀ {c text}, property c = true → P (c :: text) → Q (text.dropWhile property)) : Blind ends P Q (takeWhile1 rule property) where
  cases {text} htext := by
    have hhead (tail : Text) (htail : ends.IsTail tail) : ∀ c ∈ tail.head?, property c = false := by
      obtain ⟨d, rest, rfl, hd⟩ := htail.exists_cons
      rintro c ⟨⟩
      exact hend d hd
    cases text with
    | nil =>
      refine .inr fun tail htail => ?_
      obtain ⟨d, rest, rfl, hd⟩ := htail.exists_cons
      exact ⟨_, if_neg (Bool.eq_false_iff.1 (hend d hd))⟩
    | cons c text =>
      cases hc : property c with
      | false => exact .inr fun tail _ => ⟨_, if_neg (Bool.eq_false_iff.1 hc)⟩
      | true =>
        refine .inl ⟨c :: text.takeWhile property, _, hrest hc htext, fun tail htail => ?_⟩
        rw [List.cons_append, takeWhile1, if_pos hc, takeWhile_append_of_head (hhead tail htail),
          dropWhile_append_of_head (hhead tail htail)]

theorem takeWhile1_blind (rule : Rule) (hproperty : ∀ c, property c = true → IsInert c)
    (hend : ∀ c ∈ [';', ',', '{', '}'], property c = false) :
    Blind ends (IsPlace strict opened) (IsPlace strict opened) (takeWhile1 rule property) :=
  takeWhile1_reads rule (fun c hc => hend c (ends.marks c hc)) fun hc htext => htext.behind_run hproperty hc

end Run

theorem spaces0_blind : Blind ends (IsPlace strict opened) (IsPlace strict opened) spaces0 :=
  takeWhile_blind (fun _ => isInert_of_isSpace) (by decide)

theorem spaces1_blind : Blind ends (IsPlace strict opened) (IsPlace strict opened) spaces1 :=
  takeWhile1_blind .whiteSpace (fun _ => isInert_of_isSpace) (by decide)

theorem blanks0_blind : Blind ends (IsPlace strict opened) (IsPlace strict opened) blanks0 := by
  refine takeWhile_blind (fun c hc => isInert_of_isSpace ?_) (by decide)
  simp only [Bool.or_eq_true, beq_iff_eq] at hc
  rcases hc with rfl | rfl <;> rfl

/-- A text does not end inside of a line ending. -/
theorem lineEnding_blind {P : Text → Prop} : Blind ends P (fun _ => True) lineEnding where
  cases {text} _ := by
    have hnone {c : Char} {rest : Text} (hfeed : c ≠ '\n') (hreturn : c = '\r' → rest.head? ≠ some '\n') :
        Mismatches lineEnding (c :: rest) := by
      unfold Mismatches lineEnding
      split
      · next heq => exact absurd (List.cons.inj heq).1 hfeed
      · next heq =>
        obtain ⟨rfl, rfl⟩ := List.cons.inj heq
        exact absurd rfl (hreturn rfl)
      · exact ⟨_, rfl⟩
    have hfeed (tail : Text) (htail : ends.IsTail tail) : tail.head? ≠ some '\n' :=
      (EndPair.lacks_of_not_mem (by decide)).head htail
    cases text with
    | nil =>
      refine .inr fun tail htail => ?_
      obtain ⟨c, rest, rfl, hc⟩ := htail.exists_cons
      have hmark := ends.marks c hc
      exact hnone (fun heq => hfeed _ htail (congrArg some heq)) fun heq => absurd (heq ▸ hmark) (by decide)
    | cons c text =>
      by_cases hc : c = '\n'
      · subst hc
        exact .inl ⟨_, text, trivial, fun _ _ => rfl⟩
      by_cases hreturn : c = '\r' ∧ text.head? = some '\n'
      · obtain ⟨rfl, hhead⟩ := hreturn
        obtain ⟨rest, rfl⟩ := List.head?_eq_some_iff.1 hhead
        exact .inl ⟨_, rest, trivial, fun _ _ => rfl⟩
      · refine .inr fun tail htail => hnone hc fun heq hhead => hreturn ⟨heq, ?_⟩
        cases text with
        | nil => exact absurd hhead (hfeed tail htail)
        | cons d text => exact hhead

/-! ### Blocks and expressions -/

theorem block_blind {opener closer : Char} (hpair : IsScannedPair opener closer) (hangle : opener = '<' → strict = true)
    (hend : opened = [] → ends.Lacks opener) : Blind ends (IsPlace strict opened) (IsPlace strict opened) (block opener closer) where
  cases {text} htext := by
    cases text with
    | nil =>
      have hopened : opened = [] := Decidable.byContradiction fun hopened => htext.ne_nil hopened rfl
      exact .inr fun tail htail => ⟨_, if_neg ((hend hopened).head htail)⟩
    | cons c text =>
      by_cases hc : c = opener
      case neg => exact .inr fun tail _ => ⟨_, if_neg (head?_cons_ne hc (text ++ tail))⟩
      subst hc
      -- The scan of a block begins at its bracket, and sees nothing of what stands in front of it.
      obtain ⟨brackets, _, before, hopened, hstep, -, hclosed⟩ := htext.exists_step (Scan.isCode_of_ne hpair.opener_plain _)
      have hopener : (c ∈ ['(', '[', '{'] ∨ strict = true ∧ c = '<') ∧ Scan.isNumberChar c = false := by
        rcases hpair.cases with ⟨rfl, -⟩ | ⟨rfl, -⟩ | ⟨rfl, -⟩ | ⟨rfl, -⟩
        · exact ⟨.inl (by decide), by decide⟩
        · exact ⟨.inl (by decide), by decide⟩
        · exact ⟨.inl (by decide), by decide⟩
        · exact ⟨.inr ⟨hangle rfl, rfl⟩, by decide⟩
      rw [hstep.eq_cons hopener.1] at hclosed
      have hbefore : (c :: before).takeWhile Scan.isNumberChar = [c].takeWhile Scan.isNumberChar := by
        rw [List.takeWhile_cons_of_neg (by simp [hopener.2]), List.takeWhile_cons_of_neg (by simp [hopener.2])]
      rw [closesFrom_congr_before hbefore] at hclosed
      obtain ⟨found, before', brackets', rest, hopened', hrest, hread⟩ := block_of_closesFrom hpair hangle hopened hclosed
      exact .inl ⟨found, rest, ⟨before', brackets', hopened', hrest⟩, fun tail htail => hread tail htail.isEnd.isNeutral⟩

theorem parentheses_blind : Blind ends (IsPlace strict opened) (IsPlace strict opened) parentheses :=
  block_blind (by decide) (fun heq => absurd heq (by decide)) fun _ => EndPair.lacks_of_not_mem (by decide)

theorem braces_blind (hend : opened = [] → ends.Lacks '{') : Blind ends (IsPlace strict opened) (IsPlace strict opened) braces :=
  block_blind (by decide) (fun heq => absurd heq (by decide)) hend

theorem angleBrackets_blind : Blind ends (IsPlace true opened) (IsPlace true opened) angleBrackets :=
  block_blind (by decide) (fun _ => rfl) fun _ => EndPair.lacks_of_not_mem (by decide)

theorem expression_blind {stops : Text} {angles : Bool} (hless : angles = false → opened.head? ≠ some '<')
    (hloose : strict = true ∨ angles = false ∨ opened ≠ []) (hfeed : isStop stops '\n' = false)
    (hends : opened = [] → ends.EndDeclarator ∧ isStop stops ',' = true) :
    Blind ends (IsStart strict opened) (IsPlace strict opened) (expression stops angles) where
  cases {text} htext := by
    obtain ⟨brackets, hopened, hclosed⟩ := htext
    obtain ⟨taken, before', brackets', rest, hopened', hrest, hread⟩ :=
      expressionFrom_of_closesFrom hopened hless hloose hfeed hends hclosed
    cases htaken : (Text.trim taken).isEmpty with
    | true =>
      refine .inr fun tail htail => ⟨[⟨text ++ tail, .rule .until⟩], ?_⟩
      rw [expression, hread tail htail]
      exact if_pos htaken
    | false =>
      refine .inl ⟨Text.trim taken, rest, ⟨before', brackets', hopened', hrest⟩, fun tail htail => ?_⟩
      rw [expression, hread tail htail]
      exact if_neg (Bool.eq_false_iff.1 htaken)

/-! ### Attributes -/

theorem doubleBrackets_blind : Blind ends (IsPlace strict opened) (IsPlace strict opened) (do
    let _ ← literal "[["
    let _ ← takeUntil "]]"
    literal "]]") where
  cases {text} htext := by
    have hafter (tail : Text) (htail : ends.IsTail tail) :
        Text.after? "[[".toList (text ++ tail) = (Text.after? "[[".toList text).map (· ++ tail) :=
      Text.after?_append (htail.isEnd.head (by decide)) text
    cases hopen : Text.after? "[[".toList text with
    | none =>
      have hnone (tail : Text) (htail : ends.IsTail tail) : Mismatches (literal "[[") (text ++ tail) := by
        unfold Mismatches literal
        rw [hafter tail htail, hopen]
        exact ⟨_, rfl⟩
      exact .inr fun tail htail => (hnone tail htail).bind
    | some behind =>
      obtain rfl := Text.after?_eq_some_iff.1 hopen
      have hplace : IsPlace strict opened ('[' :: '[' :: behind) := htext
      obtain ⟨content, rest, hsplit, hrest⟩ := hplace.behind_attribute
      refine .inl ⟨"]]".toList, rest, hrest, fun tail _ => ?_⟩
      have huntil : takeUntil "]]" (behind ++ tail) = .ok content ("]]".toList ++ (rest ++ tail)) := by
        rw [takeUntil, Text.splitBefore?_append_of_some hsplit]
        rfl
      rw [List.append_assoc, bind_of_ok (literal_append "[[" _), bind_of_ok huntil]
      exact literal_append "]]" _

theorem attributeMark_forks : Forks ends (IsPlace strict opened) (IsPlace strict opened) attributeMark attributeMark := by
  have hwords : ∀ word ∈ ["__attribute__", "__declspec", "alignas"], IsInertWord word := by decide
  exact .firstOf (.cons (Forks.textOf doubleBrackets_blind.forks) (.cons
    (Forks.textOf ((anyKeyword_forks hwords).bind fun _ => afterGap_forks parentheses_blind.forks)) .nil))

theorem attributes_forks : Forks ends (IsPlace strict opened) (IsPlace strict opened) attributes attributes :=
  (Forks.many (beforeGap_forks attributeMark_forks)).bind fun _ => .pure ()

/-! ### The character at the end -/

/-- A place in the text in front of either end, or the text behind the character `c` that both ends begin with. -/
inductive Past (ends : EndPair) (c : Char) (P : Text → Prop) : Text → Text → Prop
  | within {rest rest' : Text} (hrest : Fork ends P rest rest') : Past ends c P rest rest'
  | behind (hnil : P []) (hstop : ends.stop = c) : Past ends c P ends.back ends.back'

namespace Past

variable {c : Char} {p q : Parser α}

/-- In a bracket the text does not end. -/
theorem fork_of_not_nil (hnil : ¬P []) {rest rest' : Text} (hrest : Past ends c P rest rest') : Fork ends P rest rest' := by
  cases hrest with
  | within hrest => exact hrest
  | behind hend => exact absurd hend hnil

theorem fork_of_ne (hstop : ends.stop ≠ c) {rest rest' : Text} (hrest : Past ends c P rest rest') : Fork ends P rest rest' := by
  cases hrest with
  | within hrest => exact hrest
  | behind _ heq => exact absurd heq hstop

/-- What is left where one run leaves the text behind its end. -/
theorem eq_back {rest' : Text} (hrest : Past ends c P ends.back rest') : rest' = ends.back' := by
  generalize hback : ends.back = rest at hrest
  cases hrest with
  | within hrest =>
    obtain ⟨_⟩ := hrest
    have hlength := congrArg List.length hback
    simp only [List.length_append, List.length_cons] at hlength
    omega
  | behind => rfl

theorem textOf (hsame : ends.stop' = ends.stop) (hp : Relates (Fork ends P) (Past ends c Q) p q) :
    Relates (Fork ends P) (Past ends c Q) (textOf p) (textOf q) := by
  refine Relates.textOf hp ?_
  rintro _ _ _ _ ⟨_⟩ (⟨⟨_⟩⟩ | _)
  · simp only [List.length_append, List.length_cons, Nat.add_sub_add_right]
    rw [List.take_append_of_le_length (Nat.sub_le ..), List.take_append_of_le_length (Nat.sub_le ..)]
  · have htake (front back : Text) :
        (front ++ ends.stop :: back).take ((front ++ ends.stop :: back).length - back.length) = front ++ [ends.stop] := by
      rw [List.append_cons, List.length_append, Nat.add_sub_cancel, List.take_left]
    rw [hsame, htake, htake]

end Past

theorem char_past {c : Char} (hsame : ends.stop' = ends.stop) (hnil : P [] → Q []) (hrest : ∀ {rest}, P (c :: rest) → Q rest) :
    Relates (Fork ends P) (Past ends c Q) (char c) (char c) where
  outcome hinput := by
    obtain ⟨htext⟩ := hinput
    rename_i text
    cases text with
    | nil =>
      rw [List.nil_append, List.nil_append, hsame]
      by_cases hc : ends.stop = c
      · rw [hc, char_cons, char_cons]
        exact .ok (.behind (hnil htext) hc)
      · rw [char, if_neg hc, char, if_neg hc]
        exact .mismatch
    | cons d text =>
      rw [List.cons_append, List.cons_append]
      by_cases hd : d = c
      · subst hd
        rw [char_cons, char_cons]
        exact .ok (.within (.intro (hrest htext)))
      · rw [char, if_neg hd, char, if_neg hd]
        exact .mismatch

end HeaderOutline
