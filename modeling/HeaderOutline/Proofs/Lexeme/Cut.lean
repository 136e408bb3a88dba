import Mathlib
import HeaderOutline.Proofs.Lexeme.Walk
/-!
# Where an expression ends

An expression is scanned with the brackets that are open in it. The scan goes over whole literals and comments, and it ends in
front of a character of code that is told from the brackets in front of it, so that what stands behind that character
makes no difference. `expression_taken` says this of every input.
-/

namespace HeaderOutline

open HeaderOutline.Scan

variable {stops text code taken rest before : Text} {angles : Bool} {opened opened' : List Char} {c : Char}

/-! ### Expressions as scans -/

/-- The brackets that are open behind a character of code, and none if the expression ends in front of it. -/
def openedBehind (stops : Text) (angles : Bool) (opened : List Char) (c : Char) : Option (List Char) :=
  if opened.isEmpty && (c == ';' || isStop stops c) then none else bracketsBehind angles opened c

theorem expressionFrom_eq_run (stops : Text) (angles : Bool) (opened : List Char) (mode : Scan.Mode) (before text : Text) :
    expressionFrom stops angles opened mode before text = (run (openedBehind stops angles) opened mode before text).2 := by
  induction text generalizing opened mode before with
  | nil => rfl
  | cons c rest ih =>
    rw [expressionFrom, run, openedBehind]
    cases mode.step before c rest with
    | some mode' => exact ih opened mode' (c :: before)
    | none =>
      dsimp only
      split
      · rfl
      · cases bracketsBehind angles opened c with
        | some opened' => exact ih opened' .code (c :: before)
        | none => rfl

/-- An ASCII character is a stop if it is one of the stop characters. -/
theorem isStop_ascii (hc : c.toNat < 128) (stops : Text) : isStop stops c = stops.contains c := by
  have hlead : leadCharacter c = c := by
    have hval : c.val.toNat = c.toNat := rfl
    have hencode : String.utf8EncodeChar c = [UInt8.ofNat c.toNat] := by simp [String.utf8EncodeChar, hval, show c.toNat ≤ 127 by omega]
    rw [leadCharacter, hencode]
    simp [Nat.mod_eq_of_lt (show c.toNat < 256 by omega)]
  rw [isStop, hlead]

/-- What an expression of the input takes, and what `expression` makes of it. -/
theorem expression_eq (stops : Text) (angles : Bool) (input : Text) : expression stops angles input =
    if Text.trim (expressionFrom stops angles [] .code [] input).1 = [] then .mismatch [⟨input, .rule .until⟩]
    else .ok (Text.trim (expressionFrom stops angles [] .code [] input).1) (expressionFrom stops angles [] .code [] input).2 := by
  simp only [expression, List.isEmpty_iff]

/-- A slash neither stops an expression nor changes the open brackets. -/
theorem openedBehind_slash (hstops : '/' ∉ stops) (angles : Bool) (opened : List Char) :
    openedBehind stops angles opened '/' = some opened := by
  have hstop : isStop stops '/' = false := by
    rw [isStop_ascii (by decide)]
    simpa using hstops
  rw [openedBehind, hstop, bracketsBehind_of_ne (by decide)]
  simp

/-- The character in front of which an expression ends is code, whatever stands behind it. -/
theorem isCode_of_openedBehind (hstops : '/' ∉ stops) (hc : IsCode c rest) (hends : openedBehind stops angles opened c = none)
    (other : Text) : IsCode c other := by
  obtain ⟨hcharacter, hstring, -⟩ := hc
  refine ⟨hcharacter, hstring, fun heq => ?_⟩
  rw [heq, openedBehind_slash hstops] at hends
  cases hends

/-! ### What is taken -/

/-- An expression takes a front of the input that falls into code and whole literals and comments, and is that front without white
space at its ends. It is refused if nothing is left. Behind the character in front of which it ends, any other text may stand. -/
theorem expression_taken (hstops : ∀ c ∈ stops, c = ',' ∨ c = ';') (angles : Bool) (input : Text) :
    ∃ taken rest, expressionFrom stops angles [] .code [] input = (taken, rest) ∧ taken ++ rest = input ∧
      (∃ code, Walks rest [] taken code) ∧
      expression stops angles input =
        (if Text.trim taken = [] then .mismatch [⟨input, .rule .until⟩] else .ok (Text.trim taken) rest) ∧
      ∀ c tail, rest = c :: tail → ∀ other, expression stops angles (taken ++ c :: other) =
        if Text.trim taken = [] then .mismatch [⟨taken ++ c :: other, .rule .until⟩] else .ok (Text.trim taken) (c :: other) := by
  have hslash : '/' ∉ stops := fun hmem => by simpa using hstops '/' hmem
  obtain ⟨taken, rest, code, opened, rfl, htaken, hopened, hrun, hends⟩ := exists_walks (openedBehind stops angles) [] [] input
  have hscan : expressionFrom stops angles [] .code [] (taken ++ rest) = (taken, rest) := by
    rw [expressionFrom_eq_run, hrun]
    rfl
  refine ⟨taken, rest, hscan, rfl, ⟨code, htaken⟩, ?_, ?_⟩
  · rw [expression_eq, hscan]
  · rintro c tail rfl other
    obtain ⟨hc, hnone⟩ := hends c tail rfl
    have hhead : (c :: tail).head? = (c :: other).head? := rfl
    have hrun_other := run_walks (htaken.of_head? hhead) hopened
    rw [run_of_stop (isCode_of_openedBehind hslash hc hnone other) hnone, List.append_nil, List.reverse_reverse] at hrun_other
    rw [expression_eq, expressionFrom_eq_run, hrun_other]

/-- Commas in a literal, in a comment and in angle brackets, and a mark between digits. -/
theorem expression_taken_template : (∀ c ∈ [','], c = ',' ∨ c = ';') ∧
    expression [','] true " f<1'0, ','> /*,*/ , x".toList = .ok "f<1'0, ','> /*,*/".toList ", x".toList ∧
    expression [','] true " f<1'0, ','> /*,*/ ,'".toList = .ok "f<1'0, ','> /*,*/".toList ",'".toList := by
  have hstops : ∀ c ∈ [','], c = ',' ∨ c = ';' := by simp
  obtain ⟨taken, rest, hscan, -, -, hread, hother⟩ := expression_taken hstops true " f<1'0, ','> /*,*/ , x".toList
  have htaken : expressionFrom [','] true [] .code [] " f<1'0, ','> /*,*/ , x".toList =
      (" f<1'0, ','> /*,*/ ".toList, ", x".toList) := by cbv
  obtain ⟨rfl, rfl⟩ := Prod.mk.inj (hscan.symm.trans htaken)
  exact ⟨hstops, hread, hother ',' " x".toList rfl "'".toList⟩

end HeaderOutline
