import HeaderOutline.Parser.Repeat
import HeaderOutline.Proofs.Nesting.Guards
/-!
# Programs with levels

A parser that takes the levels that are left stands for a program that takes a guard for each level it opens, and
gives it back where the level ends, however it ends. `LevelProgram` is the syntax of such programs. A program has two
meanings: `reading` is told how many levels are left, `run` counts them on the counter of the guards. `run_eq` says
that both come to the same, and that a run leaves the guards as it found them.
-/

namespace HeaderOutline

variable {α : Type}

namespace Parser

/-- A mismatch of `p` consumes nothing and becomes a value. -/
def attempt (p : Parser α) : Parser (Except Trace α) := fun input =>
  match p input with
  | .ok a rest => .ok (.ok a) rest
  | .mismatch trace => .ok (.error trace) input
  | .failure trace => .failure trace

end Parser

/-- A parser that may open levels of nesting. -/
inductive LevelProgram : Type → Type 1
  /-- Opens no level. -/
  | plain {α : Type} (p : Parser α) : LevelProgram α
  | bind {α β : Type} (first : LevelProgram α) (next : α → LevelProgram β) : LevelProgram β
  /-- Hands a mismatch on as a value, so that something else can be read instead. -/
  | attempt {α : Type} (tried : LevelProgram α) : LevelProgram (Except Trace α)
  /-- Goes on as the text ahead says. -/
  | ahead {α : Type} (choice : Text → LevelProgram α) : LevelProgram α
  /-- Holds a guard as long as `inside` reads. -/
  | level {α : Type} (inside : LevelProgram α) : LevelProgram α

namespace LevelProgram

/-- What the program reads where the given number of levels is left. -/
def reading : {α : Type} → LevelProgram α → (room : Nat) → Parser α
  | _, plain p, _ => p
  | _, bind first next, room => first.reading room >>= fun a => (next a).reading room
  | _, attempt tried, room => Parser.attempt (tried.reading room)
  | _, ahead choice, room => fun input => (choice input).reading room input
  | _, level _, 0 => tooDeep
  | _, level inside, room + 1 => inside.reading room

/-- Runs the program with guards that are held already. The guard of a level is given back whether the inside was
read, mismatched or failed; if no guard is to be had, the inside is not read at all. -/
def run : {α : Type} → LevelProgram α → Guards → Text → Outcome α × Guards
  | _, plain p, guards, input => (p input, guards)
  | _, bind first next, guards, input =>
    match first.run guards input with
    | (.ok a rest, guards) => (next a).run guards rest
    | (.mismatch trace, guards) => (.mismatch trace, guards)
    | (.failure trace, guards) => (.failure trace, guards)
  | _, attempt tried, guards, input =>
    match tried.run guards input with
    | (.ok a rest, guards) => (.ok (.ok a) rest, guards)
    | (.mismatch trace, guards) => (.ok (.error trace) input, guards)
    | (.failure trace, guards) => (.failure trace, guards)
  | _, ahead choice, guards, input => (choice input).run guards input
  | _, level inside, guards, input =>
    match guards.enter input with
    | (.ok guard rest, guards) =>
      let (outcome, guards) := inside.run guards rest
      (outcome, guards.drop guard)
    | (.mismatch trace, guards) => (.mismatch trace, guards)
    | (.failure trace, guards) => (.failure trace, guards)

open Guards

/-- What a run comes to is the reading with the levels that are left, and it leaves the guards as it found them. -/
theorem run_eq (program : LevelProgram α) {guards : Guards} (hcounted : Counted guards) (input : Text) :
    (program.run guards input).1 = program.reading guards.nesting.room input ∧
      Restored guards (program.run guards input).2 := by
  induction program generalizing guards input with
  | plain p => exact ⟨rfl, .refl guards⟩
  | bind first next ihFirst ihNext =>
    obtain ⟨hfirst, hbetween⟩ := ihFirst hcounted input
    rw [run, reading, Parser.bind_apply, ← hfirst]
    rcases hrun : first.run guards input with ⟨outcome, between⟩
    rw [hrun] at hbetween
    cases outcome with
    | ok a rest =>
      obtain ⟨hnext, hafter⟩ := ihNext a (hbetween.counted hcounted) rest
      rw [hbetween.nesting_eq] at hnext
      exact ⟨hnext, hbetween.trans hafter⟩
    | mismatch trace => exact ⟨rfl, hbetween⟩
    | failure trace => exact ⟨rfl, hbetween⟩
  | attempt tried ih =>
    obtain ⟨htried, hafter⟩ := ih hcounted input
    rw [run, reading, Parser.attempt, ← htried]
    rcases hrun : tried.run guards input with ⟨outcome, after⟩
    rw [hrun] at hafter
    cases outcome with
    | ok a rest => exact ⟨rfl, hafter⟩
    | mismatch trace => exact ⟨rfl, hafter⟩
    | failure trace => exact ⟨rfl, hafter⟩
  | ahead choice ih => exact ih input hcounted input
  | level inside ih =>
    rcases guards.nesting.lt_or_eq with hlt | heq
    · -- The guard is given back at the end of the level, whatever the inside came to.
      obtain ⟨hinside, hafter⟩ := ih (hcounted.withNext hlt) input
      rw [run, enter_of_lt hlt, room_withNext hlt]
      exact ⟨hinside, hcounted.restored_drop hafter⟩
    · rw [run, enter_of_eq heq, Nesting.room_of_eq heq]
      exact ⟨rfl, .refl guards⟩

end LevelProgram

end HeaderOutline
