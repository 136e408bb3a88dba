import HeaderOutline.Lexeme.Gap
import HeaderOutline.Proofs.Parser.Bounded
import HeaderOutline.Proofs.Parser.Outcome
/-!
# Parsers that make progress, and parsers that commit

Three more properties of single parsers, again as classes. A `Consuming` parser leaves less than it was
given, a `Decided` parser never mismatches, and the mismatches of a `Placed` parser may be made final.
A loop over a decided and consuming item is decided itself: it can stop neither because its item does not
match nor because its item consumes nothing.
-/

namespace HeaderOutline.Parser

variable {α β : Type}

/-- Every success consumes something. -/
class Consuming (p : Parser α) : Prop where
  lt : ∀ {input a rest}, p input = .ok a rest → rest.length < input.length

/-- No outcome is a mismatch. -/
class Decided (p : Parser α) : Prop where
  ne_mismatch : ∀ input trace, p input ≠ .mismatch trace

/-- Mismatches are placed in the input and name no construct. -/
class Placed (p : Parser α) : Prop where
  placed : ∀ {input trace}, p input = .mismatch trace → trace.Placed input

/-- A committed parser is bounded if it says what it expected. -/
theorem BoundedBy.commit_expecting {C : List Text} (name : String) (hname : name.toList ∈ C) (p : Parser α)
    [BoundedBy C p] [Placed p] : BoundedBy C (commit (expecting name p)) where
  within input := by
    have hwithin := BoundedBy.within (C := C) (p := p) input
    unfold commit expecting
    cases hp : p input with
    | ok a rest => rwa [hp] at hwithin
    | mismatch trace => exact (Placed.placed hp).reported hname
    | failure trace =>
      rw [hp] at hwithin
      exact Trace.Reported.append hwithin _

/-! ### Consuming parsers -/

instance {p : Parser α} {f : α → Parser β} [Bounded p] [∀ a, Consuming (f a)] : Consuming (p >>= f) where
  lt hok := by
    obtain ⟨a, mid, hp, hf⟩ := bind_eq_ok.1 hok
    exact Nat.lt_of_lt_of_le (Consuming.lt hf) (Bounded.suffix hp).length_le

theorem Consuming.bind {p : Parser α} {f : α → Parser β} (hp : Consuming p) (hf : ∀ a, Bounded (f a)) :
    Consuming (p >>= f) where
  lt hok := by
    obtain ⟨a, mid, hread, hrest⟩ := bind_eq_ok.1 hok
    exact Nat.lt_of_le_of_lt (Bounded.suffix hrest).length_le (hp.lt hread)

instance {p : Parser α} {f : α → Parser β} [hp : Consuming p] [hf : ∀ a, Bounded (f a)] : Consuming (p >>= f) := .bind hp hf

instance {p : Parser α} {f : α → β} [Consuming p] : Consuming (f <$> p) where
  lt hok := by
    obtain ⟨a, hp, -⟩ := map_eq_ok.1 hok
    exact Consuming.lt hp

instance {property : Prop} [Decidable property] {p q : Parser α} [Consuming p] [Consuming q] :
    Consuming (if property then p else q) := by
  split <;> infer_instance

instance (name : String) : Consuming (unrecognized name : Parser α) where
  lt hok := by cases hok

instance {p : Parser α} [Consuming p] : Consuming (textOf p) where
  lt {input text rest} hok := by
    unfold textOf at hok
    split at hok
    · next a mid hp =>
      cases hok
      exact Consuming.lt hp
    · cases hok
    · cases hok

instance {p : Parser α} {property : α → Bool} [Consuming p] : Consuming (p.filter property) where
  lt {input a rest} hok := by
    unfold filter at hok
    split at hok
    · next b mid hp =>
      split at hok
      · cases hok
        exact Consuming.lt hp
      · cases hok
    · cases hok
    · cases hok

instance {p : Parser α} {convert : α → Option β} [Consuming p] : Consuming (p.filterMap convert) where
  lt hok := by
    obtain ⟨a, hp, -⟩ := filterMap_eq_ok.1 hok
    exact Consuming.lt hp

instance {name : String} {p : Parser α} [Consuming p] : Consuming (commit (expecting name p)) where
  lt {input a rest} hok := by
    unfold commit expecting at hok
    cases hp : p input with
    | ok b mid =>
      rw [hp] at hok
      cases hok
      exact Consuming.lt hp
    | mismatch trace => rw [hp] at hok; cases hok
    | failure trace => rw [hp] at hok; cases hok

instance : Consuming (firstOf [] : Parser α) where
  lt hok := by cases hok

instance {p : Parser α} {ps : List (Parser α)} [Consuming p] [Consuming (firstOf ps)] :
    Consuming (firstOf (p :: ps)) where
  lt {input a rest} hok := by
    cases ps with
    | nil =>
      unfold firstOf at hok
      split at hok
      · cases hok
      · exact Consuming.lt hok
    | cons q qs =>
      unfold firstOf at hok
      split at hok
      · exact Consuming.lt (p := firstOf (q :: qs)) hok
      · exact Consuming.lt hok

instance {p : Parser α} [Consuming p] [Bounded (many p)] : Consuming (many1 p) where
  lt {input list rest} hok := by
    unfold many1 at hok
    split at hok
    · next a mid hp =>
      obtain ⟨tail, htail, -⟩ := Outcome.map_eq_ok.1 hok
      exact Nat.lt_of_le_of_lt (Bounded.suffix htail).length_le (Consuming.lt hp)
    · cases hok
    · cases hok

instance (c : Char) : Consuming (char c) where
  lt {input a rest} hok := by
    unfold char at hok
    split at hok
    · split at hok
      · cases hok
        exact Nat.lt_succ_self _
      · cases hok
    · cases hok

theorem Consuming.literal (word : String) (hword : word.toList ≠ []) : Consuming (literal word) where
  lt {input text rest} hok := by
    unfold Parser.literal at hok
    split at hok
    · next mid hafter =>
      cases hok
      have hlength := List.length_pos_iff.2 hword
      rw [Text.after?_eq_some_iff.1 hafter, List.length_append]
      omega
    · cases hok

/-- A knot consumes if its body does, whatever bounded parser stands for the knot inside. -/
theorem Consuming.recurse {body : Parser α → Parser α} [hknot : Bounded (recurse body)]
    (hbody : ∀ q, Bounded q → Consuming (body q)) : Consuming (recurse body) where
  lt {input a rest} hok := by
    rw [Parser.recurse] at hok
    refine (hbody _ ⟨fun rest => ?_⟩).lt hok
    split
    · exact hknot.within rest
    · trivial

/-! ### Decided parsers -/

instance (name : String) : Decided (unrecognized name : Parser α) where
  ne_mismatch _ _ := nofun

instance : Decided spaces0 where
  ne_mismatch _ _ := nofun

instance : Decided skipGap where
  ne_mismatch _ _ := nofun

instance {p : Parser α} : Decided (opt p) where
  ne_mismatch input trace := by
    unfold opt
    split <;> nofun

instance {p : Parser α} {f : α → Parser β} [Decided p] [∀ a, Decided (f a)] : Decided (p >>= f) where
  ne_mismatch input trace hmismatch := by
    rcases bind_eq_mismatch.1 hmismatch with hp | ⟨a, mid, -, hf⟩
    · exact Decided.ne_mismatch input trace hp
    · exact Decided.ne_mismatch mid trace hf

instance {p : Parser α} {f : α → β} [Decided p] : Decided (f <$> p) where
  ne_mismatch input trace hmismatch := Decided.ne_mismatch input trace (map_eq_mismatch.1 hmismatch)

instance {p : Parser α} [Decided p] : Decided (firstOf [p]) where
  ne_mismatch input trace := by
    unfold firstOf
    cases hp : p input with
    | ok a rest => nofun
    | mismatch trace' => exact absurd hp (Decided.ne_mismatch input trace')
    | failure trace' => nofun

instance {p q : Parser α} {ps : List (Parser α)} [Decided (firstOf (q :: ps))] :
    Decided (firstOf (p :: q :: ps)) where
  ne_mismatch input trace := by
    unfold firstOf
    split
    · exact Decided.ne_mismatch input trace
    · next hne => exact hne trace

/-- An item that neither mismatches nor stands still never stops a loop. -/
instance {p : Parser α} {stop : Parser β} [Decided p] [Consuming p] : Decided (manyTill p stop) where
  ne_mismatch input trace := by
    fun_induction manyTill p stop input generalizing trace with
    | case1 => nofun
    | case2 => nofun
    | case3 input _ _ a rest _ _ ih =>
      rw [ne_eq, Outcome.map_eq_mismatch]
      exact ih trace
    | case4 input _ _ a rest hp hge => exact absurd (Consuming.lt hp) hge
    | case5 input _ _ trace' hp => exact absurd hp (Decided.ne_mismatch input trace')
    | case6 => nofun

/-! ### Placed mismatches -/

instance (priority := low) {p : Parser α} [Decided p] : Placed p where
  placed hp := absurd hp (Decided.ne_mismatch _ _)

theorem placed_singleton (input : Text) {cause : Cause} (hcause : Mark.construct? ⟨input, cause⟩ = none) :
    Trace.Placed input [⟨input, cause⟩] where
  placed := ⟨_, [], rfl, List.suffix_refl input⟩
  unnamed := by
    rw [Trace.construct?, List.findSome?_cons, hcause]
    rfl

instance (a : α) : Placed (pure a : Parser α) where
  placed hp := by cases hp

instance {p : Parser α} {f : α → Parser β} [Placed p] [Bounded p] [∀ a, Placed (f a)] : Placed (p >>= f) where
  placed hmismatch := by
    rcases bind_eq_mismatch.1 hmismatch with hp | ⟨a, mid, hp, hf⟩
    · exact Placed.placed hp
    · exact (Placed.placed hf).mono (Bounded.suffix hp)

instance (c : Char) : Placed (char c) where
  placed {input trace} hmismatch := by
    unfold char at hmismatch
    split at hmismatch
    · split at hmismatch
      · cases hmismatch
      · cases hmismatch
        exact placed_singleton _ rfl
    · cases hmismatch
      exact placed_singleton _ rfl

instance {separator : Parser β} {p : Parser α} [Bounded separator] [Bounded p] : Placed (sepTail separator p) where
  placed {input trace} hmismatch := by
    fun_induction sepTail separator p input generalizing trace with
    | case1 => cases hmismatch
    | case2 => cases hmismatch
    | case3 => cases hmismatch
    | case4 => cases hmismatch
    | case5 input _ behind hseparator a rest hp _ ih =>
      have htail := ih (Outcome.map_eq_mismatch.1 hmismatch)
      exact htail.mono ((Bounded.suffix hp).trans (Bounded.suffix hseparator))
    | case6 input =>
      cases hmismatch
      exact placed_singleton input rfl

instance {separator : Parser β} {p : Parser α} [Bounded separator] [Bounded p] : Placed (sepBy separator p) where
  placed {input trace} hmismatch := by
    unfold sepBy at hmismatch
    split at hmismatch
    · cases hmismatch
    · cases hmismatch
    · next a rest hp =>
      have htail := Placed.placed (Outcome.map_eq_mismatch.1 hmismatch)
      exact htail.mono (Bounded.suffix hp)

end HeaderOutline.Parser
