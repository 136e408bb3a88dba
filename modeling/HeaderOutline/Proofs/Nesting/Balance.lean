import Mathlib.Logic.Relation
import HeaderOutline.Proofs.Nesting.Grammar
/-!
# The counter of levels is balanced

Guards are taken and given back and parsers are called, in any order. Every step keeps the counter at the number of
guards that are held, so it does so along every run. A call takes guards of its own and has given all of them back when
it ends, whatever it comes to and wherever it stopped.
-/

namespace HeaderOutline

open HeaderOutline.Parser

namespace Guards

/-- A guard is asked for, one that is held is given back, or a parser is called. -/
inductive Step (guards : Guards) : Guards → Prop
  | enter (input : Text) : Step guards (guards.enter input).2
  | drop {guard : Nat} (hlive : guard ∈ guards.live) : Step guards (guards.drop guard)
  | call {α : Type} {p : Nat → Parser α} (hp : Construct p) {program : LevelProgram α}
    (hprogram : program.Realizes nestingLimit p) (input : Text) : Step guards (program.run guards input).2

/-- The guards after some steps from where none was taken. -/
def Reachable (guards : Guards) : Prop := Relation.ReflTransGen Step none guards

variable {guards next : Guards}

theorem Step.counted (hstep : Step guards next) (hcounted : Counted guards) : Counted next := by
  cases hstep with
  | enter input => exact hcounted.enter input
  | drop hlive => exact hcounted.drop hlive
  | call hp hprogram input =>
    obtain ⟨-, hrestored⟩ := LevelProgram.run_eq _ hcounted input
    exact hrestored.counted hcounted

theorem Reachable.counted (hreachable : Reachable guards) : Counted guards := by
  have hsteps : Relation.ReflTransGen Step none guards := hreachable
  induction hsteps with
  | refl => exact counted_none
  | tail hsteps hstep ih => exact hstep.counted (ih hsteps)

/-- A call comes to what the parser reads with the levels that are left, and gives back every guard that it took. -/
theorem Counted.call {α : Type} {p : Nat → Parser α} {program : LevelProgram α} (hcounted : Counted guards)
    (hprogram : program.Realizes nestingLimit p) (input : Text) :
    (program.run guards input).1 = p guards.nesting.room input ∧
      (program.run guards input).2.nesting = guards.nesting ∧ (program.run guards input).2.live = guards.live := by
  obtain ⟨houtcome, hrestored⟩ := program.run_eq hcounted input
  have hroom : guards.nesting.room ≤ nestingLimit := Nat.sub_le ..
  refine ⟨?_, hrestored.nesting_eq, hrestored.live_eq⟩
  rw [houtcome, hprogram _ hroom]

/-- After every run the counter shows how many guards are held, at most as many as there are levels, and counting off
has always had its effect. A guard is refused where all levels are held and nowhere else, and then nothing changes; one
that is given back counts its level off. A parser of the library is what a program reads, and to call the program leaves
the counter and the guards as they were, whether it reads, mismatches or fails. -/
theorem counter_balanced {guards : Guards} (hreachable : Reachable guards) :
    (guards.nesting.held = guards.live.card ∧ guards.live.card ≤ nestingLimit ∧ guards.hasSaturated = false) ∧
    (∀ input,
      ((guards.enter input).1 = tooDeep input ↔ guards.live.card = nestingLimit) ∧
      ((guards.enter input).1 = .ok guards.taken input ↔ guards.live.card < nestingLimit) ∧
      (guards.live.card = nestingLimit → (guards.enter input).2 = guards)) ∧
    (∀ guard ∈ guards.live, (guards.drop guard).nesting.held + 1 = guards.nesting.held) ∧
    (∀ {α : Type} {p : Nat → Parser α}, Construct p →
      (∃ program : LevelProgram α, program.Realizes nestingLimit p) ∧
      ∀ program : LevelProgram α, program.Realizes nestingLimit p → ∀ input,
        (program.run guards input).1 = p guards.nesting.room input ∧
        (program.run guards input).2.nesting = guards.nesting ∧ (program.run guards input).2.live = guards.live) := by
  have hcounted := hreachable.counted
  refine ⟨⟨hcounted.held_eq, hcounted.card_le, hcounted.hasSaturated_eq⟩, fun input => ?_, fun guard hlive => ?_,
    fun hp => ⟨hp.levelled.realized, fun program hprogram input => ?_⟩⟩
  · refine ⟨hcounted.enter_eq_tooDeep_iff input, hcounted.enter_eq_ok_iff input, fun hfull => ?_⟩
    rw [hcounted.enter_of_full hfull]
  · exact hcounted.held_drop hlive
  · exact hcounted.call hprogram input

/-- Two guards are taken, a scope fails inside a list that is never closed, and the first guard is given back before the
second. -/
theorem counter_balanced_unclosed : ∃ guards, Reachable guards ∧ guards.live = {1} ∧
    guards.nesting.held = 1 ∧ guards.hasSaturated = false ∧ (guards.enter []).1 = .ok guards.taken [] ∧
    (guards.drop 1).nesting.held + 1 = guards.nesting.held ∧
    ∃ program : LevelProgram (List CType), program.Realizes nestingLimit templateArgs ∧
      (program.run guards "<A<int".toList).1 = templateArgs 63 "<A<int".toList ∧
      (program.run guards "<A<int".toList).2.nesting.held = 1 := by
  have htwo : Reachable ((none.enter []).2.enter []).2 := .tail (.single (.enter [])) (.enter [])
  obtain ⟨⟨program, hprogram⟩, hcalls⟩ := (counter_balanced htwo).2.2.2 (.scope true)
  obtain ⟨-, -, hlive⟩ := hcalls program hprogram "A<int x; \x7d".toList
  have hcalled := htwo.tail (.call (.scope true) hprogram "A<int x; \x7d".toList)
  generalize (program.run _ _).2 = called at hlive hcalled
  have hfirst : 0 ∈ called.live := by
    rw [hlive]
    decide
  have hsecond : (called.drop 0).live = {1} := by
    change called.live.erase 0 = {1}
    rw [hlive]
    decide
  obtain ⟨⟨hheld, -, hsaturated⟩, henter, hdrop, hcall⟩ := counter_balanced (hcalled.tail (.drop hfirst))
  obtain ⟨⟨args, hargs⟩, hcalls⟩ := hcall .templateArgs
  obtain ⟨houtcome, hnesting, -⟩ := hcalls args hargs "<A<int".toList
  rw [hsecond] at hheld
  refine ⟨called.drop 0, hcalled.tail (.drop hfirst), hsecond, hheld, hsaturated, (henter []).2.1.2 ?_, hdrop 1 ?_,
    args, hargs, ?_, ?_⟩
  · rw [hsecond]
    decide
  · rw [hsecond]
    decide
  · rw [houtcome, Nesting.room, hheld]
    rfl
  · rw [hnesting, hheld]
    rfl

end Guards

end HeaderOutline
