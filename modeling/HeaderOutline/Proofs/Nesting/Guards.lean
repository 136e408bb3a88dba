import Mathlib.Data.Finset.Card
import HeaderOutline.Nesting
/-!
# Guards

A level of nesting is held by a guard. Taking a guard counts the level on a counter that all guards share, giving it
back counts it off, and guards may be given back in any order. So the counter is right as long as no guard is given
back twice: it shows how many are held, and counting off never meets a counter at zero.
-/

namespace HeaderOutline

namespace Nesting

variable {nesting : Nesting}

theorem enter_of_lt (hlt : nesting.held < nestingLimit) (input : Text) :
    nesting.enter input = .ok ⟨nesting.held + 1, hlt⟩ input := dif_pos hlt

theorem enter_of_eq (heq : nesting.held = nestingLimit) (input : Text) : nesting.enter input = tooDeep input :=
  dif_neg heq.not_lt

theorem room_of_eq (heq : nesting.held = nestingLimit) : nesting.room = 0 := by
  rw [room, heq, Nat.sub_self]

theorem lt_or_eq (nesting : Nesting) : nesting.held < nestingLimit ∨ nesting.held = nestingLimit :=
  Nat.lt_or_eq_of_le nesting.held_le

end Nesting

/-- The guards that are held, and the counter that they share. -/
structure Guards where
  nesting : Nesting
  /-- The guards that are held, each by its number. -/
  live : Finset Nat
  /-- How many guards were ever taken, which is the number of the next one. -/
  taken : Nat
  /-- Whether a guard was ever given back when the counter was at zero, where counting off has no effect. -/
  hasSaturated : Bool
  deriving DecidableEq

namespace Guards

/-- No guard was taken yet. -/
def none : Guards := { nesting := .outermost, live := ∅, taken := 0, hasSaturated := false }

/-- Takes a guard for one more level, or fails in front of the input. -/
def enter (guards : Guards) (input : Text) : Outcome Nat × Guards :=
  match guards.nesting.enter input with
  | .ok nesting rest =>
    (.ok guards.taken rest, { guards with nesting, live := insert guards.taken guards.live, taken := guards.taken + 1 })
  | .mismatch trace => (.mismatch trace, guards)
  | .failure trace => (.failure trace, guards)

/-- Gives a guard back. -/
def drop (guards : Guards) (guard : Nat) : Guards :=
  { guards with
    nesting := guards.nesting.leave
    live := guards.live.erase guard
    hasSaturated := guards.hasSaturated || guards.nesting.held == 0 }

/-- The counter shows how many guards are held, and always did. -/
structure Counted (guards : Guards) : Prop where
  held_eq : guards.nesting.held = guards.live.card
  lt_taken : ∀ guard ∈ guards.live, guard < guards.taken
  hasSaturated_eq : guards.hasSaturated = false

/-- The same guards are held as before, with the counter where it was. Others may have come and gone. -/
structure Restored (before after : Guards) : Prop where
  nesting_eq : after.nesting = before.nesting
  live_eq : after.live = before.live
  taken_le : before.taken ≤ after.taken
  hasSaturated_eq : after.hasSaturated = before.hasSaturated

variable {guards before between after : Guards} {guard : Nat}

theorem Restored.refl (guards : Guards) : Restored guards guards := ⟨rfl, rfl, Nat.le_refl _, rfl⟩

theorem Restored.trans (hfirst : Restored before between) (hsecond : Restored between after) : Restored before after where
  nesting_eq := hsecond.nesting_eq.trans hfirst.nesting_eq
  live_eq := hsecond.live_eq.trans hfirst.live_eq
  taken_le := hfirst.taken_le.trans hsecond.taken_le
  hasSaturated_eq := hsecond.hasSaturated_eq.trans hfirst.hasSaturated_eq

theorem Restored.counted (hrestored : Restored before after) (hcounted : Counted before) : Counted after where
  held_eq := by rw [hrestored.nesting_eq, hrestored.live_eq, hcounted.held_eq]
  lt_taken guard hguard := (hcounted.lt_taken guard (hrestored.live_eq ▸ hguard)).trans_le hrestored.taken_le
  hasSaturated_eq := hrestored.hasSaturated_eq.trans hcounted.hasSaturated_eq

theorem counted_none : Counted none where
  held_eq := rfl
  lt_taken := by
    intro guard hguard
    cases hguard
  hasSaturated_eq := rfl

/-! ### Taking a guard -/

/-- The guards with one more, which holds a level that is left. -/
def withNext (guards : Guards) (hlt : guards.nesting.held < nestingLimit) : Guards :=
  { guards with
    nesting := ⟨guards.nesting.held + 1, hlt⟩
    live := insert guards.taken guards.live
    taken := guards.taken + 1 }

theorem room_withNext (hlt : guards.nesting.held < nestingLimit) :
    guards.nesting.room = (guards.withNext hlt).nesting.room + 1 := by
  change nestingLimit - guards.nesting.held = nestingLimit - (guards.nesting.held + 1) + 1
  omega

theorem enter_of_lt (hlt : guards.nesting.held < nestingLimit) (input : Text) :
    guards.enter input = (.ok guards.taken input, guards.withNext hlt) := by
  rw [enter, Nesting.enter_of_lt hlt]
  rfl

theorem enter_of_eq (heq : guards.nesting.held = nestingLimit) (input : Text) :
    guards.enter input = (tooDeep input, guards) := by
  rw [enter, Nesting.enter_of_eq heq]
  rfl

namespace Counted

variable (hcounted : Counted guards)

include hcounted

/-- The next guard is a new one. -/
theorem taken_not_mem : guards.taken ∉ guards.live :=
  fun hmem => Nat.lt_irrefl _ (hcounted.lt_taken _ hmem)

theorem card_le : guards.live.card ≤ nestingLimit := hcounted.held_eq ▸ guards.nesting.held_le

theorem withNext (hlt : guards.nesting.held < nestingLimit) : Counted (guards.withNext hlt) where
  held_eq := by
    change guards.nesting.held + 1 = (insert guards.taken guards.live).card
    rw [Finset.card_insert_of_notMem hcounted.taken_not_mem, hcounted.held_eq]
  lt_taken guard hguard := by
    rcases Finset.mem_insert.1 hguard with rfl | hlive
    · exact Nat.lt_succ_self _
    · exact (hcounted.lt_taken guard hlive).trans (Nat.lt_succ_self _)
  hasSaturated_eq := hcounted.hasSaturated_eq

theorem enter (input : Text) : Counted (guards.enter input).2 := by
  rcases guards.nesting.lt_or_eq with hlt | heq
  · rw [enter_of_lt hlt]
    exact hcounted.withNext hlt
  · rw [enter_of_eq heq]
    exact hcounted

/-- A guard is refused where as many are held as there are levels. -/
theorem enter_eq_tooDeep_iff (input : Text) :
    (guards.enter input).1 = tooDeep input ↔ guards.live.card = nestingLimit := by
  rw [← hcounted.held_eq]
  rcases guards.nesting.lt_or_eq with hlt | heq
  · rw [enter_of_lt hlt]
    exact ⟨nofun, fun heq => absurd heq hlt.ne⟩
  · rw [enter_of_eq heq]
    exact ⟨fun _ => heq, fun _ => rfl⟩

theorem enter_eq_ok_iff (input : Text) :
    (guards.enter input).1 = .ok guards.taken input ↔ guards.live.card < nestingLimit := by
  rw [← hcounted.held_eq]
  rcases guards.nesting.lt_or_eq with hlt | heq
  · rw [enter_of_lt hlt]
    exact ⟨fun _ => hlt, fun _ => rfl⟩
  · rw [enter_of_eq heq]
    exact ⟨nofun, fun hlt => absurd heq hlt.ne⟩

/-- A guard that is refused changes nothing. -/
theorem enter_of_full (hfull : guards.live.card = nestingLimit) (input : Text) : guards.enter input = (tooDeep input, guards) :=
  enter_of_eq (hcounted.held_eq.trans hfull) input

/-! ### Giving a guard back -/

theorem held_pos (hlive : guard ∈ guards.live) : 0 < guards.nesting.held := by
  rw [hcounted.held_eq]
  exact Finset.card_pos.2 ⟨guard, hlive⟩

/-- Counting off meets a level that is counted. -/
theorem held_drop (hlive : guard ∈ guards.live) : (guards.drop guard).nesting.held + 1 = guards.nesting.held :=
  Nat.sub_add_cancel (hcounted.held_pos hlive)

theorem drop (hlive : guard ∈ guards.live) : Counted (guards.drop guard) where
  held_eq := by
    change guards.nesting.held - 1 = (guards.live.erase guard).card
    rw [Finset.card_erase_of_mem hlive, hcounted.held_eq]
  lt_taken other hother := hcounted.lt_taken other (Finset.mem_of_mem_erase hother)
  hasSaturated_eq := by
    have hpos := hcounted.held_pos hlive
    change (guards.hasSaturated || guards.nesting.held == 0) = false
    rw [hcounted.hasSaturated_eq, Bool.false_or, beq_eq_false_iff_ne]
    exact hpos.ne'

/-- A guard that is taken and given back again leaves the guards as they were, if what is done in between does. -/
theorem restored_drop {hlt : guards.nesting.held < nestingLimit} (hinside : Restored (guards.withNext hlt) after) :
    Restored guards (after.drop guards.taken) where
  nesting_eq := by
    change after.nesting.leave = guards.nesting
    rw [hinside.nesting_eq]
    rfl
  live_eq := by
    change after.live.erase guards.taken = guards.live
    rw [hinside.live_eq]
    exact Finset.erase_insert hcounted.taken_not_mem
  taken_le := (Nat.le_succ _).trans hinside.taken_le
  hasSaturated_eq := by
    have hheld : after.nesting.held = guards.nesting.held + 1 := congrArg Nesting.held hinside.nesting_eq
    change (after.hasSaturated || after.nesting.held == 0) = guards.hasSaturated
    rw [hinside.hasSaturated_eq, hheld]
    exact Bool.or_false _

end Counted

end Guards

end HeaderOutline
