import HeaderOutline.Nesting
import HeaderOutline.Parser.Primitive
import HeaderOutline.Parser.Repeat
/-!
# Parsers cut short

A parser that may open fewer levels should differ from one that may open more in one way only: somewhere it
runs out of levels, and then the whole reading ends there. `Curtails` says this of two parsers, on every
input. Nothing tries another reading after a failure, so every combinator keeps it: this module gives an
instance for each that is applied to parsers with levels, and `Curtails.recurse` for recursive knots.
-/

namespace HeaderOutline.Parser

variable {α β : Type}

/-- The parser `p` does what `q` does, or fails for want of a level. -/
class Curtails (p q : Parser α) : Prop where
  outcome : ∀ input, p input = q input ∨ ∃ place, p input = tooDeep place

/-- A parser that opens no level is not cut short. -/
instance (priority := high) Curtails.refl (p : Parser α) : Curtails p p where
  outcome _ := .inl rfl

/-- Without a level to open there is nothing but the failure. -/
theorem Curtails.tooDeep (q : Parser α) : Curtails HeaderOutline.tooDeep q where
  outcome input := .inr ⟨input, rfl⟩

/-! ### Combinators -/

section Combinators

variable {p q : Parser α}

/-- A parser that hands on what `p` comes to is cut short where `p` is. -/
theorem Curtails.lift [Curtails p q] {f : Parser α → Parser β}
    (hsame : ∀ {p q : Parser α} {input}, p input = q input → f p input = f q input)
    (hdeep : ∀ {p : Parser α} {input place}, p input = HeaderOutline.tooDeep place → f p input = HeaderOutline.tooDeep place) :
    Curtails (f p) (f q) where
  outcome input := (Curtails.outcome (p := p) (q := q) input).imp hsame fun ⟨place, hp⟩ => ⟨place, hdeep hp⟩

theorem Curtails.bind {f g : α → Parser β} (hp : Curtails p q) (hf : ∀ a, Curtails (f a) (g a)) :
    Curtails (p >>= f) (q >>= g) where
  outcome input := by
    rcases hp.outcome input with hsame | ⟨place, hdeep⟩
    · rw [bind_apply, bind_apply, hsame]
      cases q input with
      | ok a rest => exact (hf a).outcome rest
      | mismatch trace => exact .inl rfl
      | failure trace => exact .inl rfl
    · exact .inr ⟨place, by rw [bind_apply, hdeep]; rfl⟩

instance {f g : α → Parser β} [hp : Curtails p q] [hf : ∀ a, Curtails (f a) (g a)] : Curtails (p >>= f) (q >>= g) :=
  .bind hp hf

instance {f : α → β} [Curtails p q] : Curtails (f <$> p) (f <$> q) :=
  .lift (fun hsame => by rw [map_apply, map_apply, hsame]) fun hdeep => by rw [map_apply, hdeep]; rfl

instance {property : Prop} [Decidable property] {p' q' : Parser α} [Curtails p q] [Curtails p' q'] :
    Curtails (if property then p else p') (if property then q else q') := by
  split <;> infer_instance

instance [Curtails p q] : Curtails (textOf p) (textOf q) :=
  .lift (fun hsame => by rw [textOf, textOf, hsame]) fun hdeep => by rw [textOf, hdeep]; rfl

instance {property : α → Bool} [Curtails p q] : Curtails (p.filter property) (q.filter property) :=
  .lift (f := fun p => p.filter property) (fun hsame => by rw [filter, filter, hsame]) fun hdeep => by
    rw [filter, hdeep]; rfl

instance [Curtails p q] : Curtails (opt p) (opt q) :=
  .lift (fun hsame => by rw [opt, opt, hsame]) fun hdeep => by rw [opt, hdeep]; rfl

/-- Of two alternatives, the second is tried where the first one mismatches, and nowhere else. -/
instance {p' q' : Parser α} {ps qs : List (Parser α)} [Curtails p q] [Curtails (firstOf (p' :: ps)) (firstOf (q' :: qs))] :
    Curtails (firstOf (p :: p' :: ps)) (firstOf (q :: q' :: qs)) where
  outcome input := by
    rcases Curtails.outcome (p := p) (q := q) input with hsame | ⟨place, hdeep⟩
    · rw [firstOf, firstOf, hsame]
      cases q input with
      | ok a rest => exact .inl rfl
      | mismatch trace => exact Curtails.outcome input
      | failure trace => exact .inl rfl
    · exact .inr ⟨place, by rw [firstOf, hdeep]; rfl⟩

instance [Curtails p q] : Curtails (firstOf [p]) (firstOf [q]) :=
  .lift (f := fun p => firstOf [p]) (fun hsame => by rw [firstOf, firstOf, hsame]) fun hdeep => by
    rw [firstOf, hdeep]; rfl

end Combinators

/-! ### Repetition -/

section Repetition

theorem Curtails.map_outcome {f : α → β} {limited full : Outcome α}
    (houtcome : limited = full ∨ ∃ place, limited = HeaderOutline.tooDeep place) :
    limited.map f = full.map f ∨ ∃ place, limited.map f = HeaderOutline.tooDeep place :=
  houtcome.imp (congrArg _) fun ⟨place, hdeep⟩ => ⟨place, by rw [hdeep]; rfl⟩

variable {p q : Parser α} {separator stop stop' : Parser β}

theorem Curtails.many_outcome [Curtails p q] (input : Text) :
    many p input = many q input ∨ ∃ place, many p input = HeaderOutline.tooDeep place := by
  rcases Curtails.outcome (p := p) (q := q) input with hsame | ⟨place, hdeep⟩
  · rw [many, many, hsame]
    cases q input with
    | ok a rest =>
      dsimp only
      split
      · exact Curtails.map_outcome (many_outcome rest)
      · exact .inl rfl
    | mismatch trace => exact .inl rfl
    | failure trace => exact .inl rfl
  · exact .inr ⟨place, by rw [many, hdeep]; rfl⟩
termination_by input.length

instance [Curtails p q] : Curtails (many p) (many q) := ⟨Curtails.many_outcome⟩

theorem Curtails.manyTill_outcome [Curtails p q] [Curtails stop stop'] (input : Text) :
    manyTill p stop input = manyTill q stop' input ∨ ∃ place, manyTill p stop input = HeaderOutline.tooDeep place := by
  rcases Curtails.outcome (p := stop) (q := stop') input with hsame | ⟨place, hdeep⟩
  · rw [manyTill, manyTill, hsame]
    cases stop' input with
    | ok b rest => exact .inl rfl
    | failure trace => exact .inl rfl
    | mismatch trace =>
      rcases Curtails.outcome (p := p) (q := q) input with hsame | ⟨place, hdeep⟩
      · rw [hsame]
        cases q input with
        | ok a rest =>
          dsimp only
          split
          · exact Curtails.map_outcome (manyTill_outcome rest)
          · exact .inl rfl
        | mismatch trace => exact .inl rfl
        | failure trace => exact .inl rfl
      · exact .inr ⟨place, by rw [hdeep]; rfl⟩
  · exact .inr ⟨place, by rw [manyTill, hdeep]; rfl⟩
termination_by input.length

instance [Curtails p q] [Curtails stop stop'] : Curtails (manyTill p stop) (manyTill q stop') :=
  ⟨Curtails.manyTill_outcome⟩

theorem Curtails.sepTail_outcome [Curtails p q] (input : Text) :
    sepTail separator p input = sepTail separator q input ∨
      ∃ place, sepTail separator p input = HeaderOutline.tooDeep place := by
  rw [sepTail, sepTail]
  cases separator input with
  | mismatch trace => exact .inl rfl
  | failure trace => exact .inl rfl
  | ok b behind =>
    rcases Curtails.outcome (p := p) (q := q) behind with hsame | ⟨place, hdeep⟩
    · dsimp only
      rw [hsame]
      cases q behind with
      | mismatch trace => exact .inl rfl
      | failure trace => exact .inl rfl
      | ok a rest =>
        dsimp only
        split
        · exact Curtails.map_outcome (sepTail_outcome rest)
        · exact .inl rfl
    · exact .inr ⟨place, by dsimp only; rw [hdeep]; rfl⟩
termination_by input.length

instance [Curtails p q] : Curtails (sepTail separator p) (sepTail separator q) := ⟨Curtails.sepTail_outcome⟩

instance [Curtails p q] : Curtails (sepBy1 separator p) (sepBy1 separator q) := by
  unfold sepBy1
  infer_instance

instance [Curtails p q] : Curtails (sepBy separator p) (sepBy separator q) where
  outcome input := by
    rcases Curtails.outcome (p := p) (q := q) input with hsame | ⟨place, hdeep⟩
    · rw [sepBy, sepBy, hsame]
      cases q input with
      | mismatch trace => exact .inl rfl
      | failure trace => exact .inl rfl
      | ok a rest => exact Curtails.map_outcome (Curtails.sepTail_outcome rest)
    · exact .inr ⟨place, by rw [sepBy, hdeep]; rfl⟩

/-- A knot is cut short if its body is, whatever stands for the knot inside. -/
theorem Curtails.recurse {body body' : Parser α → Parser α}
    (hbody : ∀ p q, Curtails p q → Curtails (body p) (body' q)) : Curtails (recurse body) (recurse body') where
  outcome input := by
    induction input using recurse.induct with
    | _ input ih =>
      rw [Parser.recurse, Parser.recurse]
      refine (hbody _ _ ⟨fun rest => ?_⟩).outcome input
      split
      · next hlt => exact ih rest hlt
      · exact .inl rfl

end Repetition

end HeaderOutline.Parser
