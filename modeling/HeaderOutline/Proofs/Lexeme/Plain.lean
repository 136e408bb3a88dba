import HeaderOutline.Proofs.Lexeme.Fork
/-!
# Code that is skipped as it is

What stands behind some words is skipped up to a semicolon or a brace, and nobody looks for literals and comments there.
In a strictly closed text there are none of them, so that a place behind such a word is a place of code wherever the
skipping ends.
-/

namespace HeaderOutline

open HeaderOutline.Parser

variable {ends : EndPair} {stops : Text} {opened : List Char} {text rest : Text} {c : Char}

/-! ### Bodies -/

/-- Nothing but braces is open, as at the beginning of a statement. -/
def IsBody (opened : List Char) : Prop := ∀ c ∈ opened, c = '{'

theorem isBody_nil : IsBody [] := nofun

theorem IsBody.cons (hbody : IsBody opened) : IsBody ('{' :: opened) := by
  rintro c (_ | ⟨_, hc⟩)
  · rfl
  · exact hbody c hc

/-- No bracket but a brace closes one of the brackets of a body. -/
theorem IsBody.behind {strict : Bool} (hbody : IsBody opened) (hc : c ≠ '}') (hcode : Scan.IsCode c rest)
    (htext : IsPlace strict opened (c :: rest)) : IsPlace strict opened rest := by
  refine htext.behind hcode fun hstep hopened => hstep.sublist_of_head (fun d hd => ?_) hopened
  obtain rfl := hbody d (List.mem_of_mem_head? hd)
  refine ⟨fun hpair => hc ?_, fun heq => absurd heq.1 (by decide)⟩
  have hbrace : IsBracketPair '{' '}' := by decide
  exact ((hpair.opener_eq_iff hbrace).1 rfl)

/-! ### Plain places -/

/-- A place of code with neither a literal nor a comment in front of the next of these characters. -/
structure IsPlainPlace (stops : Text) (opened : List Char) (text : Text) : Prop where
  marks : ∀ c ∈ stops, c ∈ [';', '{', '}', '(']
  place : IsPlace true opened text
  plain : isPlain stops text = true

namespace IsPlainPlace

theorem behind (hbody : IsBody opened) (hbrace : c ≠ '}') (hc : c ∉ stops) (htext : IsPlainPlace stops opened (c :: rest)) :
    Scan.IsCode c rest ∧ IsPlainPlace stops opened rest := by
  have hplain := htext.plain
  simp only [isPlain, List.contains_iff_mem, hc, Bool.or_eq_true, Bool.and_eq_true, decide_eq_true_eq, false_or] at hplain
  exact ⟨hplain.1, htext.marks, hbody.behind hbrace hplain.1 htext.place, hplain.2⟩

theorem behind_run (hbody : IsBody opened) {property : Char → Bool} (hproperty : ∀ c, property c = true → c ≠ '}' ∧ c ∉ stops)
    (htext : IsPlainPlace stops opened text) : IsPlainPlace stops opened (text.dropWhile property) := by
  induction text with
  | nil => exact htext
  | cons c text ih =>
    cases hc : property c with
    | true =>
      rw [List.dropWhile_cons_of_pos hc]
      exact ih (htext.behind hbody (hproperty c hc).1 (hproperty c hc).2).2
    | false => rwa [List.dropWhile_cons_of_neg (Bool.eq_false_iff.1 hc)]

/-- White space and words have neither a brace nor a stop in them. -/
theorem ne_and_not_mem (htext : IsPlainPlace stops opened text) {property : Char → Bool}
    (hproperty : ∀ c ∈ [';', '{', '}', '('], property c = false) (hc : property c = true) : c ≠ '}' ∧ c ∉ stops := by
  have hne (d : Char) (hd : d ∈ [';', '{', '}', '(']) : c ≠ d := by
    rintro rfl
    exact Bool.false_ne_true ((hproperty c hd).symm.trans hc)
  exact ⟨hne '}' (by decide), fun hmem => hne c (htext.marks c hmem) rfl⟩

/-- A gap is white space here. -/
theorem gapEnd_eq (hbody : IsBody opened) (htext : IsPlainPlace stops opened text) {tail : Text} (htail : IsEnd tail) :
    gapEnd (text ++ tail) = text.dropWhile isSpace ++ tail := by
  induction text with
  | nil => exact gapEnd_of_startsToken htail.startsToken
  | cons c text ih =>
    cases hc : isSpace c with
    | true =>
      obtain ⟨hbrace, hstop⟩ := htext.ne_and_not_mem (by decide) hc
      rw [List.dropWhile_cons_of_pos hc, List.cons_append, gapEnd, if_pos hc]
      exact ih (htext.behind hbody hbrace hstop).2
    | false =>
      rw [List.dropWhile_cons_of_neg (Bool.eq_false_iff.1 hc)]
      by_cases hslash : c = '/'
      · subst hslash
        have hstop : '/' ∉ stops := fun hmem => absurd (htext.marks '/' hmem) (by decide)
        obtain ⟨⟨-, -, hnext⟩, -⟩ := htext.behind hbody (by decide) hstop
        refine gap_slash (fun d hd => ⟨?_, ?_⟩) tail htail
        · rintro rfl
          exact (hnext rfl).1 hd
        · rintro rfl
          exact (hnext rfl).2 hd
      · exact gapEnd_cons hc hslash (text ++ tail)

end IsPlainPlace

/-! ### Reading from plain places -/

theorem skipGap_plain (hbody : IsBody opened) : Blind ends (IsPlainPlace stops opened) (IsPlainPlace stops opened) skipGap where
  cases {text} htext := by
    have hrest : IsPlainPlace stops opened (text.dropWhile isSpace) :=
      htext.behind_run hbody fun c hc => htext.ne_and_not_mem (by decide) hc
    exact .inl ⟨(), _, hrest, fun tail htail => by rw [skipGap, htext.gapEnd_eq hbody htail.isEnd]⟩

theorem takeWhile1_plain (hbody : IsBody opened) (rule : Rule) {property : Char → Bool}
    (hproperty : ∀ c, property c = true → c ≠ '}' ∧ c ∉ stops) (hend : ∀ c ∈ [ends.stop, ends.stop'], property c = false) :
    Blind ends (IsPlainPlace stops opened) (IsPlainPlace stops opened) (takeWhile1 rule property) := by
  refine takeWhile1_reads rule hend fun {c text} hc htext => ?_
  have hrest := htext.behind_run hbody hproperty
  rwa [List.dropWhile_cons_of_pos hc] at hrest

/-- What is skipped up to one of these characters, a semicolon and a closing brace among them. -/
theorem noneOf1_plain (hends : ends.Agree) (hbody : IsBody opened) {marks : String}
    (hmarks : ∀ c ∈ ';' :: '}' :: stops, c ∈ marks.toList) :
    Blind ends (IsPlainPlace stops opened) (IsPlainPlace stops opened) (noneOf1 marks) := by
  have hends : ∀ c ∈ [ends.stop, ends.stop'], c ∈ marks.toList := fun c hc =>
    hmarks c (List.mem_append_left stops (hends.mem_of_mem hc))
  refine takeWhile1_plain hbody .exclusion (fun c hc => ?_) fun c hc => by simpa using hends c hc
  have hmem : c ∉ marks.toList := by simpa using hc
  exact ⟨fun heq => hmem (heq ▸ hmarks '}' (by simp)), fun hstop => hmem (hmarks c (by simp [hstop]))⟩

theorem char_plain (hbody : IsBody opened) {c : Char} (hend : ends.Lacks c) (hbrace : c ≠ '\x7d') (hc : c ∉ stops) :
    Blind ends (IsPlainPlace stops opened) (IsPlainPlace stops opened) (char c) :=
  char_blind (fun _ => hend) fun htext => (htext.behind hbody hbrace hc).2

theorem identifier_plain (hbody : IsBody opened) :
    Blind ends (IsPlainPlace stops opened) (IsPlainPlace stops opened) identifier := by
  refine identifier_reads fun {c text} hc htext => ?_
  have hmarks : ∀ d ∈ [';', '{', '}', '('], isWordChar d = false := by decide
  have hrest := htext.behind_run hbody fun d hd => htext.ne_and_not_mem hmarks hd
  rwa [List.dropWhile_cons_of_pos hc] at hrest

/-! ### Words that code is skipped behind -/

theorem IsPlace.skipsPlainly (htext : IsPlace true opened (c :: rest)) (hc : Scan.IsCode c rest) : skipsPlainly (c :: rest) = true := by
  obtain ⟨_, _, _, _, _, haccepted, _⟩ := htext.exists_step hc
  simp only [accepted, Bool.not_true, Bool.false_or, Bool.and_eq_true] at haccepted
  exact haccepted.2.2

/-- What the text skips behind a word. -/
theorem literal_plain {word : String} (hword : IsInertWord word) (hstops : ∀ c ∈ stops, c ∈ [';', '{', '}', '('])
    (hplain : ∀ {rest}, skipsPlainly (word.toList ++ rest) = true → isPlain stops rest = true) (hne : word.toList ≠ []) :
    Blind ends (IsPlace true opened) (IsPlainPlace stops opened) (literal word) := by
  refine literal_blind hword.not_mem fun {rest} htext => ⟨hstops, htext.of_append fun c hc => (hword c hc).1, hplain ?_⟩
  obtain ⟨c, front, hfront⟩ := List.exists_cons_of_ne_nil hne
  rw [hfront] at htext ⊢
  exact htext.skipsPlainly ((hword c (hfront ▸ List.mem_cons_self)).1.isCode _)

theorem after?_self (word : String) (rest : Text) : Text.after? word.toList (word.toList ++ rest) = some rest :=
  Text.after?_eq_some_iff.2 rfl

/-- What stands behind `using` and `namespace`. -/
theorem keyword_plain {word : String} (hword : word ∈ ["using", "namespace"]) :
    Forks ends (IsPlace true opened) (IsPlainPlace ";\x7b\x7d".toList opened) (keyword word) (keyword word) := by
  have hwords : ∀ word ∈ ["using", "namespace"], IsInertWord word ∧ word.toList ≠ [] := by decide
  refine keyword_forks (literal_plain (hwords word hword).1 (by decide) (fun {rest} hplain => ?_) (hwords word hword).2)
  simp only [skipsPlainly, Bool.and_eq_true, List.all_eq_true] at hplain
  have hword := hplain.1.1 word hword
  rwa [after?_self] at hword

/-- What stands behind `operator`. -/
theorem operator_plain :
    Forks ends (IsPlace true opened) (IsPlainPlace ['('] opened) (keyword "operator") (keyword "operator") := by
  refine keyword_forks (literal_plain (by decide) (by decide) (fun {rest} hplain => ?_) (by decide))
  simp only [skipsPlainly, Bool.and_eq_true] at hplain
  have hword := hplain.2
  rwa [after?_self] at hword

section Plain

variable {α : Type} {p q : Parser α}

theorem afterGap_plain {S : Text → Text → Prop} (hbody : IsBody opened) (hp : Relates (Fork ends (IsPlainPlace stops opened)) S p q) :
    Relates (Fork ends (IsPlainPlace stops opened)) S (afterGap p) (afterGap q) := (skipGap_plain hbody).forks.bind fun _ => hp

theorem beforeGap_plain {R : Text → Text → Prop} (hbody : IsBody opened) (hp : Relates R (Fork ends (IsPlainPlace stops opened)) p q) :
    Relates R (Fork ends (IsPlainPlace stops opened)) (beforeGap p) (beforeGap q) :=
  hp.bind fun a => (skipGap_plain hbody).forks.bind fun _ => .pure a

end Plain

/-! ### Statements -/

/-- In front of either end, the parsers do the same, up to a place in the text or to behind a semicolon that both ends begin
with. -/
abbrev EndsAlike {α : Type} (ends : EndPair) (opened : List Char) (p q : Parser α) : Prop :=
  Relates (Fork ends (IsPlace true opened)) (Past ends ';' (IsPlace true opened)) p q

theorem semicolon_alike (hsame : ends.stop' = ends.stop) : EndsAlike ends opened (char ';') (char ';') := by
  have hinert : IsInert ';' := by decide
  exact char_past hsame id fun htext => htext.behind (hinert.isCode _) hinert.sublist

/-- The semicolon behind a statement. -/
theorem statementEnd_alike (hsame : ends.stop' = ends.stop) : EndsAlike ends opened (afterGap (char ';')) (afterGap (char ';')) :=
  afterGap_forks (semicolon_alike hsame)

end HeaderOutline
