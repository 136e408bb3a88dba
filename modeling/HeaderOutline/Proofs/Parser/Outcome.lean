import HeaderOutline.Parser.Basic
/-!
# Taking outcomes apart

How a sequence, or a parser whose value is changed, comes to its outcome.
-/

namespace HeaderOutline

variable {α β : Type}

namespace Outcome

theorem map_eq_ok {f : α → β} {outcome : Outcome α} {b : β} {rest : Text} :
    outcome.map f = .ok b rest ↔ ∃ a, outcome = .ok a rest ∧ f a = b := by
  cases outcome with
  | ok a mid =>
    refine ⟨fun h => ?_, fun ⟨_, heq, hb⟩ => ?_⟩
    · cases h
      exact ⟨a, rfl, rfl⟩
    · cases heq
      rw [← hb]
      rfl
  | mismatch trace => simp [map]
  | failure trace => simp [map]

theorem map_eq_mismatch {f : α → β} {outcome : Outcome α} {trace : Trace} :
    outcome.map f = .mismatch trace ↔ outcome = .mismatch trace := by
  cases outcome <;> simp [map]

theorem andThen_eq_ok {f : α → Parser β} {outcome : Outcome α} {b : β} {rest : Text} :
    outcome.andThen f = .ok b rest ↔ ∃ a mid, outcome = .ok a mid ∧ f a mid = .ok b rest := by
  cases outcome with
  | ok a mid => exact ⟨fun h => ⟨a, mid, rfl, h⟩, fun ⟨_, _, heq, h⟩ => by cases heq; exact h⟩
  | mismatch trace => simp [andThen]
  | failure trace => simp [andThen]

theorem andThen_eq_mismatch {f : α → Parser β} {outcome : Outcome α} {trace : Trace} :
    outcome.andThen f = .mismatch trace ↔
      outcome = .mismatch trace ∨ ∃ a mid, outcome = .ok a mid ∧ f a mid = .mismatch trace := by
  cases outcome with
  | ok a mid =>
    refine ⟨fun h => .inr ⟨a, mid, rfl, h⟩, fun h => ?_⟩
    rcases h with h | ⟨_, _, heq, h⟩
    · cases h
    · cases heq
      exact h
  | mismatch trace => simp [andThen]
  | failure trace => simp [andThen]

/-- What `view` shows of the value, if the whole text is read. -/
def whole? (view : α → β) : Outcome α → Option β
  | .ok a [] => some (view a)
  | _ => none

theorem whole?_eq_some {view : α → β} {outcome : Outcome α} {b : β} :
    outcome.whole? view = some b ↔ ∃ a, outcome = .ok a [] ∧ view a = b := by
  unfold whole?
  split <;> simp_all

end Outcome

namespace Parser

theorem map_eq_ok {f : α → β} {p : Parser α} {input rest : Text} {b : β} :
    (f <$> p) input = .ok b rest ↔ ∃ a, p input = .ok a rest ∧ f a = b := by
  rw [map_apply, Outcome.map_eq_ok]

theorem map_eq_mismatch {f : α → β} {p : Parser α} {input : Text} {trace : Trace} :
    (f <$> p) input = .mismatch trace ↔ p input = .mismatch trace := by
  rw [map_apply, Outcome.map_eq_mismatch]

theorem bind_eq_ok {p : Parser α} {f : α → Parser β} {input rest : Text} {b : β} :
    (p >>= f) input = .ok b rest ↔ ∃ a mid, p input = .ok a mid ∧ f a mid = .ok b rest := by
  rw [bind_apply, Outcome.andThen_eq_ok]

theorem bind_eq_mismatch {p : Parser α} {f : α → Parser β} {input : Text} {trace : Trace} :
    (p >>= f) input = .mismatch trace ↔
      p input = .mismatch trace ∨ ∃ a mid, p input = .ok a mid ∧ f a mid = .mismatch trace := by
  rw [bind_apply, Outcome.andThen_eq_mismatch]

theorem filter_eq_ok {p : Parser α} {property : α → Bool} {input rest : Text} {a : α} :
    p.filter property input = .ok a rest ↔ p input = .ok a rest ∧ property a = true := by
  unfold filter
  cases p input with
  | ok b mid =>
    dsimp only
    split
    · next hb =>
      refine ⟨fun h => ⟨h, ?_⟩, And.left⟩
      cases h
      exact hb
    · next hb =>
      refine ⟨nofun, fun ⟨heq, ha⟩ => ?_⟩
      cases heq
      exact absurd ha hb
  | mismatch trace => simp
  | failure trace => simp

theorem filterMap_eq_ok {p : Parser α} {convert : α → Option β} {input rest : Text} {b : β} :
    p.filterMap convert input = .ok b rest ↔ ∃ a, p input = .ok a rest ∧ convert a = some b := by
  unfold filterMap
  cases p input with
  | ok a mid =>
    dsimp only
    split
    · next c hc =>
      constructor
      · intro h
        cases h
        exact ⟨a, rfl, hc⟩
      · rintro ⟨_, heq, hb⟩
        cases heq
        rw [Option.some.inj (hc.symm.trans hb)]
    · next hnone =>
      constructor
      · intro h
        cases h
      · rintro ⟨_, heq, hb⟩
        cases heq
        rw [hnone] at hb
        cases hb
  | mismatch trace => simp
  | failure trace => simp

theorem map_firstOf (f : α → β) (ps : List (Parser α)) : f <$> firstOf ps = firstOf (ps.map (f <$> ·)) := by
  funext input
  rw [map_apply]
  induction ps with
  | nil => rfl
  | cons p ps ih =>
    cases ps with
    | nil =>
      rw [List.map_cons, List.map_nil, firstOf, firstOf, map_apply]
      cases p input <;> rfl
    | cons q ps =>
      rw [List.map_cons, List.map_cons, firstOf, firstOf, map_apply]
      cases p input with
      | mismatch trace => exact ih
      | _ => rfl

/-- What a choice reads, one of its alternatives reads. -/
theorem firstOf_eq_ok {ps : List (Parser α)} {input rest : Text} {a : α} (hps : firstOf ps input = .ok a rest) :
    ∃ p ∈ ps, p input = .ok a rest := by
  fun_induction firstOf ps input with
  | case1 => cases hps
  | case2 => cases hps
  | case3 p => exact ⟨p, List.mem_cons_self, hps⟩
  | case4 p q ps input trace _ ih =>
    obtain ⟨r, hr, hok⟩ := ih hps
    exact ⟨r, List.mem_cons_of_mem p hr, hok⟩
  | case5 p => exact ⟨p, List.mem_cons_self, hps⟩

end Parser

end HeaderOutline
