import HeaderOutline.Proofs.Grammar
import HeaderOutline.Proofs.Lexeme
import HeaderOutline.Proofs.Text.Blank
/-!
# The logical line of a directive

A line feed behind a backslash, or behind a backslash and carriage returns, does not end a directive. `Continued` says
this of every line feed of a text, and a logical line is the longest front that is continued, with the line feed behind
it. `directive_append` and `exists_of_directive` tell the parts of a directive in front of any text: number sign, name
and logical line.
-/

namespace HeaderOutline

open HeaderOutline.Parser

namespace Directive

variable {before s t front back rest : Text}

/-! ### Continued lines -/

theorem isContinued_reverse_iff : isContinued s.reverse = true ↔ ∃ init n, s = init ++ '\\' :: List.replicate n '\r' := by
  constructor
  · intro hs
    unfold isContinued at hs
    rw [beq_iff_eq] at hs
    obtain ⟨init, hinit⟩ := List.head?_eq_some_iff.1 hs
    have hreturns : s.reverse.takeWhile (· == '\r') = List.replicate (s.reverse.takeWhile (· == '\r')).length '\r' :=
      List.eq_replicate_of_mem fun c hc => beq_iff_eq.1 (List.all_eq_true.1 List.all_takeWhile c hc)
    have hparts : s.reverse = List.replicate (s.reverse.takeWhile (· == '\r')).length '\r' ++ '\\' :: init := by
      rw [← hreturns, ← hinit, List.takeWhile_append_dropWhile]
    refine ⟨init.reverse, (s.reverse.takeWhile (· == '\r')).length, ?_⟩
    calc s = s.reverse.reverse := (List.reverse_reverse s).symm
      _ = _ := by
        rw [congrArg List.reverse hparts, List.reverse_append, List.reverse_cons, List.reverse_replicate,
          List.append_assoc, List.singleton_append]
  · rintro ⟨init, n, rfl⟩
    have hreturns : ∀ c ∈ List.replicate n '\r', (c == '\r') = true := fun c hc => beq_iff_eq.2 (List.eq_of_mem_replicate hc)
    rw [isContinued, List.reverse_append, List.reverse_cons, List.reverse_replicate, List.append_assoc,
      List.dropWhile_append_of_pos hreturns]
    rfl

/-- What stands in front of another character than a backslash or a carriage return does not count. -/
theorem isContinued_append (hbefore : ∀ c ∈ before.head?, c ≠ '\\' ∧ c ≠ '\r') (line : Text) :
    isContinued (line ++ before) = isContinued line := by
  unfold isContinued
  rw [List.dropWhile_append]
  split
  · next hempty =>
    rw [List.isEmpty_iff.1 hempty]
    cases before with
    | nil => rfl
    | cons c before =>
      obtain ⟨hslash, hreturn⟩ := hbefore c rfl
      rw [List.dropWhile_cons_of_neg (by simpa using hreturn)]
      simpa using hslash
  · next hne =>
    obtain ⟨c, tail, heq⟩ := List.exists_cons_of_ne_nil (mt List.isEmpty_iff.2 hne)
    rw [heq]
    rfl

/-- Every line feed of the text is continued by what stands in front of it: first `before`, nearest character first. -/
def ContinuedBehind (before s : Text) : Prop :=
  ∀ front back, s = front ++ '\n' :: back → isContinued (front.reverse ++ before) = true

/-- Every line feed of the text stands behind a backslash, or behind a backslash and carriage returns. -/
def Continued (s : Text) : Prop := ∀ front back, s = front ++ '\n' :: back → isContinued front.reverse = true

theorem continuedBehind_iff (hbefore : ∀ c ∈ before.head?, c ≠ '\\' ∧ c ≠ '\r') : ContinuedBehind before s ↔ Continued s := by
  unfold ContinuedBehind Continued
  simp only [isContinued_append hbefore]

theorem continuedBehind_nil : ContinuedBehind before [] := by
  intro front back heq
  cases front <;> cases heq

theorem continuedBehind_cons {c : Char} :
    ContinuedBehind before (c :: s) ↔ (c = '\n' → isContinued before = true) ∧ ContinuedBehind (c :: before) s := by
  constructor
  · intro hs
    constructor
    · rintro rfl
      exact hs [] s rfl
    · intro front back heq
      have hfront := hs (c :: front) back (congrArg (c :: ·) heq)
      rwa [List.reverse_cons, List.append_assoc, List.singleton_append] at hfront
  · rintro ⟨hc, hs⟩ front back heq
    cases front with
    | nil =>
      cases heq
      exact hc rfl
    | cons d front =>
      cases heq
      rw [List.reverse_cons, List.append_assoc, List.singleton_append]
      exact hs front back rfl

theorem continuedBehind_append :
    ContinuedBehind before (s ++ t) ↔ ContinuedBehind before s ∧ ContinuedBehind (s.reverse ++ before) t := by
  induction s generalizing before with
  | nil => simp [continuedBehind_nil]
  | cons c s ih =>
    rw [List.cons_append, continuedBehind_cons, ih, continuedBehind_cons, List.reverse_cons, List.append_assoc,
      List.singleton_append, and_assoc]

theorem continuedBehind_nil_iff : ContinuedBehind [] s ↔ Continued s := continuedBehind_iff (by rintro c ⟨⟩)

theorem continuedBehind_of_not_mem (hs : '\n' ∉ s) : ContinuedBehind before s := by
  rintro front back rfl
  exact absurd (List.mem_append_right front List.mem_cons_self) hs

theorem continued_of_not_mem (hs : '\n' ∉ s) : Continued s := continuedBehind_nil_iff.1 (continuedBehind_of_not_mem hs)

theorem Continued.append (hs : Continued s) (ht : '\n' ∉ t) : Continued (s ++ t) :=
  continuedBehind_nil_iff.1 (continuedBehind_append.2 ⟨continuedBehind_nil_iff.2 hs, continuedBehind_of_not_mem ht⟩)

/-- A text that does not end in a backslash continues no line feed behind it. -/
theorem continued_append_iff (hs : ∀ c ∈ s.getLast?, c ≠ '\\' ∧ c ≠ '\r') : Continued (s ++ t) ↔ Continued s ∧ Continued t := by
  have hreverse : ∀ c ∈ (s.reverse ++ []).head?, c ≠ '\\' ∧ c ≠ '\r' := by rwa [List.append_nil, List.head?_reverse]
  rw [← continuedBehind_nil_iff, continuedBehind_append, continuedBehind_nil_iff, continuedBehind_iff hreverse]

theorem Continued.of_append_left (hboth : Continued (s ++ t)) : Continued s := by
  rintro front back rfl
  exact hboth front (back ++ t) (by rw [List.append_assoc, List.cons_append])

theorem continued_append_lineFeed_iff :
    Continued (s ++ '\n' :: t) ↔ Continued s ∧ isContinued s.reverse = true ∧ Continued t := by
  have hfeed : ∀ c ∈ ('\n' :: (s.reverse ++ [])).head?, c ≠ '\\' ∧ c ≠ '\r' := by
    rintro c ⟨⟩
    decide
  rw [← continuedBehind_nil_iff, continuedBehind_append, continuedBehind_nil_iff, continuedBehind_cons, continuedBehind_iff hfeed,
    List.append_nil]
  simp only [forall_const]

/-! ### Splitting -/

theorem splitLogicalLine_congr {line line' : Text} (hline : ∀ s, isContinued (s ++ line) = isContinued (s ++ line')) (t : Text) :
    splitLogicalLine line t = splitLogicalLine line' t := by
  induction t generalizing line line' with
  | nil => rfl
  | cons c t ih =>
    have hend : isContinued line = isContinued line' := hline []
    have hcons (s : Text) : isContinued (s ++ c :: line) = isContinued (s ++ c :: line') := by
      have happend := hline (s ++ [c])
      rwa [List.append_assoc, List.append_assoc] at happend
    unfold splitLogicalLine
    rw [hend]
    by_cases hc : c = '\n'
    · rw [if_pos hc, if_pos hc]
    · rw [if_neg hc, if_neg hc, ih hcons]

theorem splitLogicalLine_cons (line : Text) (c : Char) (t : Text) :
    splitLogicalLine line (c :: t) = if c = '\n' ∧ isContinued line = false then (['\n'], t)
      else (c :: (splitLogicalLine (c :: line) t).1, (splitLogicalLine (c :: line) t).2) := by
  by_cases hc : c = '\n'
  · subst hc
    have hnew (s : Text) : isContinued (s ++ []) = isContinued (s ++ '\n' :: line) := by
      rw [isContinued_append (by rintro c ⟨⟩), isContinued_append (by rintro c ⟨⟩; decide)]
    rw [splitLogicalLine, if_pos rfl, splitLogicalLine_congr hnew t]
    simp
  · rw [splitLogicalLine]
    simp [hc]

/-- A front that is continued belongs to the logical line. -/
theorem splitLogicalLine_append_of_continued {line : Text} (hs : ContinuedBehind line s) (t : Text) : splitLogicalLine line (s ++ t) =
    (s ++ (splitLogicalLine (s.reverse ++ line) t).1, (splitLogicalLine (s.reverse ++ line) t).2) := by
  induction s generalizing line with
  | nil => rfl
  | cons c s ih =>
    obtain ⟨hc, hs⟩ := continuedBehind_cons.1 hs
    have hgo : ¬(c = '\n' ∧ isContinued line = false) := fun ⟨heq, hend⟩ => Bool.eq_false_iff.1 hend (hc heq)
    rw [List.cons_append, splitLogicalLine_cons, if_neg hgo, ih hs, List.reverse_cons, List.append_assoc]
    rfl

theorem splitLogicalLine_lineFeed_of_not {line : Text} (hline : isContinued line = false) (rest : Text) :
    splitLogicalLine line ('\n' :: rest) = (['\n'], rest) := by
  rw [splitLogicalLine_cons, if_pos ⟨rfl, hline⟩]

/-- The first line feed that is not continued ends the line, or else the text does. -/
theorem splitLogicalLine_cases (line t : Text) :
    (∃ init rest, t = init ++ '\n' :: rest ∧ ContinuedBehind line init ∧ isContinued (init.reverse ++ line) = false ∧
      splitLogicalLine line t = (init ++ ['\n'], rest)) ∨
    ContinuedBehind line t ∧ splitLogicalLine line t = (t, []) := by
  induction t generalizing line with
  | nil => exact .inr ⟨continuedBehind_nil, rfl⟩
  | cons c t ih =>
    by_cases hend : c = '\n' ∧ isContinued line = false
    · obtain ⟨rfl, hline⟩ := hend
      exact .inl ⟨[], t, rfl, continuedBehind_nil, hline, splitLogicalLine_lineFeed_of_not hline t⟩
    · have hc : c = '\n' → isContinued line = true := fun heq => by simpa [heq] using hend
      rw [splitLogicalLine_cons, if_neg hend]
      rcases ih (c :: line) with ⟨init, rest, rfl, hinit, hline, hsplit⟩ | ⟨ht, hsplit⟩
      · refine .inl ⟨c :: init, rest, rfl, continuedBehind_cons.2 ⟨hc, hinit⟩, ?_, by rw [hsplit]; rfl⟩
        rwa [List.reverse_cons, List.append_assoc]
      · exact .inr ⟨continuedBehind_cons.2 ⟨hc, ht⟩, by rw [hsplit]⟩

/-- What ends a logical line in front of `rest`: a line feed that is not continued, or the end of the input. -/
def EndsLine (line ending rest : Text) : Prop :=
  ending = ['\n'] ∧ isContinued line.reverse = false ∨ ending = [] ∧ rest = []

theorem endsLine_append_iff {ending : Text} (hs : ∀ c ∈ s.getLast?, c ≠ '\\' ∧ c ≠ '\r') :
    EndsLine (s ++ t) ending rest ↔ EndsLine t ending rest := by
  have hreverse : ∀ c ∈ s.reverse.head?, c ≠ '\\' ∧ c ≠ '\r' := by rwa [List.head?_reverse]
  rw [EndsLine, List.reverse_append, isContinued_append hreverse, EndsLine]

theorem EndsLine.isBlank {line ending : Text} (hending : EndsLine line ending rest) : Text.IsBlank ending := by
  rcases hending with ⟨rfl, -⟩ | ⟨rfl, -⟩ <;> decide

/-- A logical line is a front that is continued, and what ends it. -/
theorem splitLogicalLine_eq : splitLogicalLine [] t = (front, rest) ↔
    ∃ line ending, t = line ++ (ending ++ rest) ∧ front = line ++ ending ∧ Continued line ∧ EndsLine line ending rest := by
  constructor
  · intro hsplit
    rcases splitLogicalLine_cases [] t with ⟨line, rest', rfl, hline, hend, heq⟩ | ⟨ht, heq⟩
    · cases hsplit.symm.trans heq
      rw [List.append_nil] at hend
      exact ⟨line, ['\n'], rfl, rfl, continuedBehind_nil_iff.1 hline, .inl ⟨rfl, hend⟩⟩
    · cases hsplit.symm.trans heq
      exact ⟨t, [], by rw [List.append_nil, List.append_nil], (List.append_nil t).symm, continuedBehind_nil_iff.1 ht,
        .inr ⟨rfl, rfl⟩⟩
  · rintro ⟨line, ending, rfl, rfl, hline, hending⟩
    rw [splitLogicalLine_append_of_continued (continuedBehind_nil_iff.2 hline), List.append_nil]
    rcases hending with ⟨rfl, hend⟩ | ⟨rfl, rfl⟩
    · rw [List.singleton_append, splitLogicalLine_lineFeed_of_not hend]
    · rfl

/-! ### The parts of a directive -/

variable {name body text blanks tail : Text} {found : Directive}

/-- Spaces and tabs, which are all that a directive skips in front of its words. -/
def IsSpacing (s : Text) : Prop := ∀ c ∈ s, (c == ' ' || c == '\t') = true

instance (s : Text) : Decidable (IsSpacing s) := inferInstanceAs (Decidable (∀ c ∈ s, _))

theorem blanks0_append (hblanks : IsSpacing blanks) (hname : isIdentifier name = true) (rest : Text) :
    blanks0 (blanks ++ (name ++ rest)) = .ok blanks (name ++ rest) := by
  refine takeWhile_eq_ok.2 ⟨rfl, hblanks, ?_⟩
  cases name with
  | nil => cases hname
  | cons d name =>
    rintro c ⟨⟩
    refine Bool.eq_false_iff.2 fun hblank => ?_
    have hd := (Bool.and_eq_true_iff.1 hname).1
    rw [Bool.or_eq_true, beq_iff_eq, beq_iff_eq] at hblank
    rcases hblank with rfl | rfl <;> exact absurd hd (by decide)

theorem line_append (hblanks : IsSpacing blanks) (hname : isIdentifier name = true)
    (htail : EndsWord tail) (hsplit : splitLogicalLine [] tail = (front, rest)) :
    line ('#' :: (blanks ++ (name ++ tail))) = .ok (name, Text.trimEnd front) rest := by
  have hline : logicalLine tail = .ok (Text.trimEnd front) rest := by
    unfold logicalLine
    rw [hsplit]
  rw [line, bind_of_ok (char_cons '#' _), bind_of_ok (blanks0_append hblanks hname tail),
    bind_of_ok (identifier_append hname htail), bind_of_ok hline]
  rfl

theorem line_eq_ok (hread : line t = .ok (name, body) rest) : ∃ blanks tail front,
    t = '#' :: (blanks ++ (name ++ tail)) ∧ IsSpacing blanks ∧ isIdentifier name = true ∧
      EndsWord tail ∧ splitLogicalLine [] tail = (front, rest) ∧ body = Text.trimEnd front := by
  obtain ⟨_, _, hsign, hbehind⟩ := bind_eq_ok.1 hread
  obtain ⟨-, rfl⟩ := char_eq_ok.1 hsign
  obtain ⟨blanks, mid, hblanks, hmid⟩ := bind_eq_ok.1 hbehind
  obtain ⟨word, tail, hword, htail⟩ := bind_eq_ok.1 hmid
  obtain ⟨_, _, hsplit, hpair⟩ := bind_eq_ok.1 htail
  obtain ⟨rfl, hblank, -⟩ := takeWhile_eq_ok.1 hblanks
  obtain ⟨rfl, hname, hends⟩ := identifier_eq_ok.1 hword
  cases hpair
  cases hsplit
  exact ⟨blanks, tail, _, rfl, hblank, hname, hends, rfl, rfl⟩

/-- What is read of the body leaves the rest as it is. -/
theorem ofBody_rest {mid : Text} (hread : ofBody name body text mid = .ok found rest) : mid = rest := by
  unfold ofBody at hread
  dsimp only at hread
  split at hread
  · split at hread <;> cases hread <;> rfl
  · split at hread
    · split at hread <;> cases hread
      rfl
    · split at hread <;> cases hread <;> rfl

end Directive

open Directive

variable {name blanks tail front rest input : Text} {found : Directive}

theorem directive_append (hblanks : IsSpacing blanks) (hname : isIdentifier name = true)
    (htail : EndsWord tail) (hsplit : splitLogicalLine [] tail = (front, rest)) :
    directive ('#' :: (blanks ++ (name ++ tail))) =
      ofBody name (Text.trimEnd front) ('#' :: (blanks ++ (name ++ front))) rest := by
  have happend := splitLogicalLine_append [] tail
  rw [hsplit] at happend
  have htext : '#' :: (blanks ++ (name ++ tail)) = '#' :: (blanks ++ (name ++ front)) ++ rest := by
    rw [← happend]
    simp
  have htake : ('#' :: (blanks ++ (name ++ tail))).take (('#' :: (blanks ++ (name ++ tail))).length - rest.length) =
      '#' :: (blanks ++ (name ++ front)) := by
    rw [htext, List.length_append, Nat.add_sub_cancel, List.take_left]
  rw [directive_eq, line_append hblanks hname htail hsplit]
  dsimp only
  rw [htake]

/-- A directive is a number sign, a name and a logical line, and leaves what is behind the line. -/
theorem exists_of_directive (hread : directive input = .ok found rest) : ∃ blanks name tail front,
    input = '#' :: (blanks ++ (name ++ tail)) ∧ IsSpacing blanks ∧ isIdentifier name = true ∧
      EndsWord tail ∧ splitLogicalLine [] tail = (front, rest) ∧
      ofBody name (Text.trimEnd front) ('#' :: (blanks ++ (name ++ front))) rest = .ok found rest := by
  have hbody := hread
  rw [directive_eq] at hbody
  split at hbody
  · next name body mid hline =>
    obtain ⟨blanks, tail, front, rfl, hblanks, hname, htail, hsplit, -⟩ := line_eq_ok hline
    obtain rfl := ofBody_rest hbody
    rw [directive_append hblanks hname htail hsplit] at hread
    exact ⟨blanks, name, tail, front, rfl, hblanks, hname, htail, hsplit, hread⟩
  · cases hbody
  · cases hbody

end HeaderOutline
