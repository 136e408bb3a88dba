import Mathlib.Algebra.Ring.Int.Defs
import Mathlib.Order.Nat
import HeaderOutline.Enumeration
/-!
# Values of enumerators

An enumerator without a written value counts on from the last written one in front of it, or from zero where there is
none. The count ends at the largest number, and behind an expression that is kept as text there is none.
-/

namespace HeaderOutline

/-- The number that lies so many steps behind the value, if the value is a number and the sum not too large. -/
def EnumeratorValue.behind : EnumeratorValue → Nat → Option Int
  | .int value, steps => if value + steps ≤ maxEnumerator then some (value + steps) else none
  | .text _, _ => none

/-- The number is a signed one of 64 bits. -/
def IsSigned64 (value : Int) : Prop := -2 ^ 63 ≤ value ∧ value ≤ 2 ^ 63 - 1

namespace Enumerator

variable {next : Option Int} {enumerators : List Enumerator} {enumerator : Enumerator} {place earlier : Nat}
  {value : EnumeratorValue}

/-- What is written for the enumerator at the place. -/
def written (enumerators : List Enumerator) (place : Nat) : Option EnumeratorValue :=
  enumerators[place]?.bind Enumerator.value

/-- The value is the last one that is written in front of the place. -/
structure LastWritten (enumerators : List Enumerator) (place earlier : Nat) (value : EnumeratorValue) : Prop where
  lt : earlier < place
  written : written enumerators earlier = some value
  none : ∀ between, earlier < between → between < place → Enumerator.written enumerators between = none

/-! ### Counting -/

/-- The value that the enumerator gets if `next` is the one that follows. -/
def assigned (next : Option Int) (enumerator : Enumerator) : Option EnumeratorValue := enumerator.value <|> next.map .int

/-- The value that follows behind enumerators if `next` is the one that follows in front of them. -/
def counter (next : Option Int) : List Enumerator → Option Int
  | [] => next
  | enumerator :: enumerators => counter ((assigned next enumerator).bind EnumeratorValue.next?) enumerators

theorem counter_append_singleton (next : Option Int) (enumerators : List Enumerator) (enumerator : Enumerator) :
    counter next (enumerators ++ [enumerator]) =
      (assigned (counter next enumerators) enumerator).bind EnumeratorValue.next? := by
  induction enumerators generalizing next with
  | nil => rfl
  | cons first enumerators ih => exact ih _

/-- Each enumerator keeps its place and gets its value from those in front of it. -/
theorem getElem?_assignValues (next : Option Int) (enumerators : List Enumerator) (place : Nat) :
    (assignValues next enumerators)[place]? = enumerators[place]?.map fun enumerator =>
      { enumerator with value := assigned (counter next (enumerators.take place)) enumerator } := by
  induction enumerators generalizing next place with
  | nil => rfl
  | cons first enumerators ih =>
    cases place with
    | zero => rfl
    | succ place => exact ih _ place

theorem length_assignValues (next : Option Int) (enumerators : List Enumerator) :
    (assignValues next enumerators).length = enumerators.length := by
  induction enumerators generalizing next with
  | nil => rfl
  | cons first enumerators ih => exact congrArg (· + 1) (ih _)

/-- The value that follows behind so many of the enumerators. -/
def counterAt (enumerators : List Enumerator) (place : Nat) : Option Int := counter (some 0) (enumerators.take place)

theorem counterAt_succ (henumerator : enumerators[place]? = some enumerator) :
    counterAt enumerators (place + 1) = (assigned (counterAt enumerators place) enumerator).bind EnumeratorValue.next? := by
  rw [counterAt, List.take_add_one, henumerator, Option.toList_some, counter_append_singleton, counterAt]

theorem next?_eq_behind (value : EnumeratorValue) : value.next? = value.behind 1 := by
  cases value with
  | int value => simp only [EnumeratorValue.next?, EnumeratorValue.behind, Nat.cast_one, Int.lt_iff_add_one_le]
  | text expression => rfl

/-- One step more, which is not made where the number would be too large. -/
theorem behind_succ (value : EnumeratorValue) (steps : Nat) :
    ((value.behind steps).map .int).bind EnumeratorValue.next? = value.behind (steps + 1) := by
  cases value with
  | text expression => rfl
  | int value =>
    simp only [EnumeratorValue.behind]
    by_cases hle : value + steps ≤ maxEnumerator
    · rw [if_pos hle]
      simp only [Option.map_some, Option.bind_some, EnumeratorValue.next?, Nat.cast_add, Nat.cast_one, Int.add_assoc,
        Int.lt_iff_add_one_le]
    · rw [if_neg hle, if_neg (by push_cast; omega)]
      rfl

theorem map_behind (value : Int) (steps : Nat) : ((EnumeratorValue.int value).behind steps).map EnumeratorValue.int =
    if value + steps ≤ 2 ^ 63 - 1 then some (.int (value + steps)) else none := apply_ite (Option.map _) _ _ _

/-- Without a written value, the count goes one step on. -/
theorem counterAt_succ_of_blank {steps : Nat} (hplace : place < enumerators.length)
    (hblank : written enumerators place = none) (hcounter : counterAt enumerators place = value.behind steps) :
    counterAt enumerators (place + 1) = value.behind (steps + 1) := by
  obtain ⟨enumerator, henumerator⟩ : ∃ enumerator, enumerators[place]? = some enumerator :=
    ⟨_, List.getElem?_eq_getElem hplace⟩
  have hnone : enumerator.value = none := by simpa [written, henumerator] using hblank
  rw [counterAt_succ henumerator, assigned, hnone, hcounter, ← behind_succ]
  rfl

theorem counterAt_of_blank (hplace : place ≤ enumerators.length)
    (hblank : ∀ earlier < place, written enumerators earlier = none) :
    counterAt enumerators place = (EnumeratorValue.int 0).behind place := by
  induction place with
  | zero => rfl
  | succ place ih =>
    exact counterAt_succ_of_blank hplace (hblank place (Nat.lt_succ_self place))
      (ih (Nat.le_of_succ_le hplace) fun earlier hearlier => hblank earlier (Nat.lt_succ_of_lt hearlier))

theorem counterAt_of_lastWritten (hplace : place ≤ enumerators.length) (hlast : LastWritten enumerators place earlier value) :
    counterAt enumerators place = value.behind (place - earlier) := by
  obtain ⟨hlt, hwritten, hblank⟩ := hlast
  induction place, hlt using Nat.le_induction with
  | base =>
    obtain ⟨enumerator, henumerator, hvalue⟩ := Option.bind_eq_some_iff.1 hwritten
    rw [counterAt_succ henumerator, assigned, hvalue, Nat.succ_sub (Nat.le_refl earlier), Nat.sub_self, ← next?_eq_behind]
    rfl
  | succ place hlt ih =>
    have hcounter := ih (Nat.le_of_succ_le hplace) fun between hafter hbefore =>
      hblank between hafter (Nat.lt_succ_of_lt hbefore)
    rw [Nat.succ_sub (Nat.le_of_lt hlt)]
    exact counterAt_succ_of_blank hplace (hblank place hlt (Nat.lt_succ_self place)) hcounter

/-! ### Signed numbers -/

/-- A step is only made where it leads to a signed number again. -/
theorem isSigned64_of_next? {value next : Int} (hvalue : IsSigned64 value)
    (hnext : (EnumeratorValue.int value).next? = some next) : IsSigned64 next := by
  have hlimit : (maxEnumerator : Int) = 2 ^ 63 - 1 := rfl
  obtain ⟨hlt, heq⟩ := Option.ite_none_right_eq_some.1 hnext
  cases heq
  obtain ⟨hlow, hhigh⟩ := hvalue
  exact ⟨by omega, by omega⟩

theorem isSigned64_assignValues (hwritten : ∀ enumerator ∈ enumerators, ∀ value, enumerator.value = some (.int value) → IsSigned64 value)
    (hnext : ∀ value, next = some value → IsSigned64 value) :
    ∀ enumerator ∈ assignValues next enumerators, ∀ value, enumerator.value = some (.int value) → IsSigned64 value := by
  induction enumerators generalizing next with
  | nil => exact List.forall_mem_nil _
  | cons first enumerators ih =>
    obtain ⟨hfirst, hrest⟩ := List.forall_mem_cons.1 hwritten
    have hassigned : ∀ value, assigned next first = some (.int value) → IsSigned64 value := by
      intro value hvalue
      rw [assigned] at hvalue
      cases hown : first.value with
      | some own =>
        rw [hown] at hvalue
        exact hfirst value (hown.trans hvalue)
      | none =>
        rw [hown] at hvalue
        obtain ⟨count, hcount, heq⟩ := Option.map_eq_some_iff.1 hvalue
        cases heq
        exact hnext value hcount
    refine List.forall_mem_cons.2 ⟨hassigned, ih hrest fun value hvalue => ?_⟩
    obtain ⟨own, hown, hnext⟩ := Option.bind_eq_some_iff.1 hvalue
    cases own with
    | int own => exact isSigned64_of_next? (hassigned own hown) hnext
    | text expression => cases hnext

/-! ### All enumerators -/

/-- Every enumerator keeps its place, its name, its comment and its written value. Without one, its value is its place if
no value is written in front of it, and else lies behind the last such value, as many steps as the places are apart. It
has none if that is text or the sum is too large. All additions are made on signed numbers and lead to signed numbers. -/
theorem assignValues_spec (enumerators : List Enumerator) :
    (assignValues (some 0) enumerators).length = enumerators.length ∧
    (∀ place enumerator, enumerators[place]? = some enumerator →
      ∃ value, (assignValues (some 0) enumerators)[place]? = some { enumerator with value } ∧
        (∀ own, enumerator.value = some own → value = some own) ∧
        (enumerator.value = none →
          ((∀ earlier < place, written enumerators earlier = none) →
            value = if (place : Int) ≤ 2 ^ 63 - 1 then some (.int place) else none) ∧
          (∀ earlier v, LastWritten enumerators place earlier (.int v) →
            value = if v + (place - earlier) ≤ 2 ^ 63 - 1 then some (.int (v + (place - earlier))) else none) ∧
          ∀ earlier expression, LastWritten enumerators place earlier (.text expression) → value = none)) ∧
    ((∀ enumerator ∈ enumerators, ∀ v, enumerator.value = some (.int v) → IsSigned64 v) →
      ∀ enumerator ∈ assignValues (some 0) enumerators, ∀ v, enumerator.value = some (.int v) →
        IsSigned64 v ∧ ∀ sum, (EnumeratorValue.int v).next? = some sum → IsSigned64 sum) := by
  refine ⟨length_assignValues _ _, fun place enumerator henumerator => ?_, fun hwritten enumerator henumerator v hv => ?_⟩
  · have hplace : place ≤ enumerators.length := (List.getElem?_eq_some_iff.1 henumerator).1.le
    refine ⟨assigned (counterAt enumerators place) enumerator, ?_, fun own hown => ?_, fun hnone => ⟨fun hblank => ?_,
      fun earlier v hlast => ?_, fun earlier expression hlast => ?_⟩⟩
    · rw [getElem?_assignValues, henumerator]
      rfl
    · rw [assigned, hown]
      rfl
    · rw [assigned, hnone, counterAt_of_blank hplace hblank, ← Int.zero_add (place : Int)]
      exact map_behind 0 place
    · rw [assigned, hnone, counterAt_of_lastWritten hplace hlast, ← Nat.cast_sub hlast.lt.le]
      exact map_behind v (place - earlier)
    · rw [assigned, hnone, counterAt_of_lastWritten hplace hlast]
      rfl
  · have hsigned : IsSigned64 v := by
      refine isSigned64_assignValues hwritten ?_ enumerator henumerator v hv
      rintro _ ⟨⟩
      exact ⟨by decide, by decide⟩
    exact ⟨hsigned, fun sum => isSigned64_of_next? hsigned⟩

/-- The enumerators `A = 7, B = sizeof(int), C = 5, D, E`, of which the last has the value 7 again. -/
theorem assignValues_spec_restarted : ∃ value,
    (assignValues (some 0) [⟨['A'], some (.int 7), none⟩, ⟨['B'], some (.text "sizeof(int)".toList), none⟩,
      ⟨['C'], some (.int 5), none⟩, ⟨['D'], none, none⟩, ⟨['E'], none, none⟩])[4]? = some ⟨['E'], value, none⟩ ∧
    value = some (.int 7) := by
  let enumerators : List Enumerator := [⟨['A'], some (.int 7), none⟩, ⟨['B'], some (.text "sizeof(int)".toList), none⟩,
    ⟨['C'], some (.int 5), none⟩, ⟨['D'], none, none⟩, ⟨['E'], none, none⟩]
  have hlast : LastWritten enumerators 4 2 (.int 5) := by
    refine ⟨by decide, rfl, fun between hafter hbefore => ?_⟩
    obtain rfl : between = 3 := by omega
    rfl
  obtain ⟨value, hfound, -, hblank⟩ := (assignValues_spec enumerators).2.1 4 ⟨['E'], none, none⟩ rfl
  exact ⟨value, hfound, (hblank rfl).2.1 2 5 hlast⟩

end Enumerator

end HeaderOutline
