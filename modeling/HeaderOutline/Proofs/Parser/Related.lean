import Mathlib.Data.List.Forall2
import HeaderOutline.Proofs.Parser.Reading
/-!
# Two runs on related texts

Two texts may be apart in a way that the parsers of the language do not see. `Relates R S p q` says that `p` and `q` do
the same on texts that `R` relates, and that what they leave is related by `S`. It is about two parsers, since a recursive
knot is another parser in either run. There is one rule for each combinator; repetition and recursion also ask that the two
runs agree on which texts are shorter.
-/

namespace HeaderOutline

variable {α β : Type} {R S T : Text → Text → Prop}

namespace Outcome

/-- The same value with related texts left, or the same way to stop. -/
inductive Related (R : Text → Text → Prop) : Outcome α → Outcome α → Prop
  | ok {a : α} {rest rest' : Text} (hrest : R rest rest') : Related R (.ok a rest) (.ok a rest')
  | mismatch {trace trace' : Trace} : Related R (.mismatch trace) (.mismatch trace')
  | failure {trace trace' : Trace} : Related R (.failure trace) (.failure trace')

variable {outcome outcome' : Outcome α}

theorem Related.refl (hrefl : ∀ text, R text text) (outcome : Outcome α) : Related R outcome outcome := by
  cases outcome with
  | ok _ rest => exact .ok (hrefl rest)
  | mismatch => exact .mismatch
  | failure => exact .failure

theorem Related.mono (hrelated : Related R outcome outcome') (hmono : ∀ {rest rest'}, R rest rest' → S rest rest') :
    Related S outcome outcome' := by
  cases hrelated with
  | ok hrest => exact .ok (hmono hrest)
  | mismatch => exact .mismatch
  | failure => exact .failure

theorem Related.map (hrelated : Related R outcome outcome') (f : α → β) : Related R (outcome.map f) (outcome'.map f) := by
  cases hrelated with
  | ok hrest => exact .ok hrest
  | mismatch => exact .mismatch
  | failure => exact .failure

theorem Related.exists_ok (hrelated : Related R outcome outcome') {a : α} {rest : Text} (hok : outcome = .ok a rest) :
    ∃ rest', outcome' = .ok a rest' ∧ R rest rest' := by
  subst hok
  cases hrelated with
  | ok hrest => exact ⟨_, rfl, hrest⟩

theorem Related.cases (hrelated : Related R outcome outcome') :
    (∃ a rest rest', outcome = .ok a rest ∧ outcome' = .ok a rest' ∧ R rest rest') ∨
    (∃ trace trace', outcome = .mismatch trace ∧ outcome' = .mismatch trace') ∨
    ∃ trace trace', outcome = .failure trace ∧ outcome' = .failure trace' := by
  cases hrelated with
  | ok hrest => exact .inl ⟨_, _, _, rfl, rfl, hrest⟩
  | mismatch => exact .inr (.inl ⟨_, _, rfl, rfl⟩)
  | failure => exact .inr (.inr ⟨_, _, rfl, rfl⟩)

end Outcome

namespace Parser

/-- On texts that `R` relates the parsers do the same, and what they leave is related by `S`. -/
structure Relates (R S : Text → Text → Prop) (p q : Parser α) : Prop where
  outcome : ∀ {input input'}, R input input' → (p input).Related S (q input')

/-- The two runs agree on whether progress was made. -/
def Measured (R S : Text → Text → Prop) : Prop := ∀ {input input' rest rest'}, R input input' → S rest rest' →
  (rest.length < input.length ↔ rest'.length < input'.length)

namespace Relates

variable {p q : Parser α}

theorem cases (hp : Relates R S p q) {input input' : Text} (hinput : R input input') :
    (∃ a rest rest', p input = .ok a rest ∧ q input' = .ok a rest' ∧ S rest rest') ∨
    (∃ trace trace', p input = .mismatch trace ∧ q input' = .mismatch trace') ∨
    ∃ trace trace', p input = .failure trace ∧ q input' = .failure trace' := (hp.outcome hinput).cases

theorem mismatches (hp : Relates R S p q) {input input' : Text} (hinput : R input input') (hmismatch : Mismatches p input) :
    Mismatches q input' := by
  obtain ⟨_, hmismatch⟩ := hmismatch
  rcases hp.cases hinput with ⟨_, _, _, hok, -, -⟩ | ⟨_, trace, -, hq⟩ | ⟨_, _, hfail, -⟩
  · cases hmismatch.symm.trans hok
  · exact ⟨trace, hq⟩
  · cases hmismatch.symm.trans hfail

theorem mono {R' S' : Text → Text → Prop} (hp : Relates R S p q) (hR : ∀ {input input'}, R' input input' → R input input')
    (hS : ∀ {rest rest'}, S rest rest' → S' rest rest') : Relates R' S' p q where
  outcome hinput := (hp.outcome (hR hinput)).mono hS

/-! ### Sequences -/

theorem pure (a : α) : Relates R R (pure a) (pure a) where
  outcome hinput := .ok hinput

theorem mismatch (cause : Cause) : Relates R S (mismatch cause : Parser α) (mismatch cause) where
  outcome _ := .mismatch

theorem unrecognized (name : String) : Relates R S (unrecognized name : Parser α) (unrecognized name) where
  outcome _ := .failure

theorem bind {f g : α → Parser β} (hp : Relates R S p q) (hf : ∀ a, Relates S T (f a) (g a)) :
    Relates R T (p >>= f) (q >>= g) where
  outcome hinput := by
    rw [bind_apply, bind_apply]
    rcases hp.cases hinput with ⟨a, rest, rest', hok, hok', hrest⟩ | ⟨_, _, hok, hok'⟩ | ⟨_, _, hok, hok'⟩ <;> rw [hok, hok']
    · exact (hf a).outcome hrest
    · exact .mismatch
    · exact .failure

theorem map (f : α → β) (hp : Relates R S p q) : Relates R S (f <$> p) (f <$> q) where
  outcome hinput := by
    rw [map_apply, map_apply]
    exact (hp.outcome hinput).map f

/-- The parsers do not see where the texts are apart, and read the same. -/
theorem textOf (hp : Relates R S p q) (htaken : ∀ {input input' rest rest'}, R input input' → S rest rest' →
      input.take (input.length - rest.length) = input'.take (input'.length - rest'.length)) :
    Relates R S (textOf p) (textOf q) where
  outcome hinput := by
    unfold Parser.textOf
    rcases hp.cases hinput with ⟨_, _, _, hok, hok', hrest⟩ | ⟨_, _, hok, hok'⟩ | ⟨_, _, hok, hok'⟩ <;> rw [hok, hok']
    · dsimp only
      rw [htaken hinput hrest]
      exact .ok hrest
    · exact .mismatch
    · exact .failure

theorem lookahead (hp : Relates R S p q) : Relates R R (lookahead p) (lookahead q) where
  outcome hinput := by
    unfold Parser.lookahead
    rcases hp.cases hinput with ⟨_, _, _, hok, hok', -⟩ | ⟨_, _, hok, hok'⟩ | ⟨_, _, hok, hok'⟩ <;> rw [hok, hok']
    · exact .ok hinput
    · exact .mismatch
    · exact .failure

theorem notFollowedBy (hp : Relates R S p q) : Relates R R (notFollowedBy p) (notFollowedBy q) where
  outcome hinput := by
    unfold Parser.notFollowedBy
    rcases hp.cases hinput with ⟨_, _, _, hok, hok', -⟩ | ⟨_, _, hok, hok'⟩ | ⟨_, _, hok, hok'⟩ <;> rw [hok, hok']
    · exact .mismatch
    · exact .ok hinput
    · exact .failure

theorem filter (property : α → Bool) (hp : Relates R S p q) : Relates R S (p.filter property) (q.filter property) where
  outcome hinput := by
    unfold Parser.filter
    rcases hp.cases hinput with ⟨a, _, _, hok, hok', hrest⟩ | ⟨_, _, hok, hok'⟩ | ⟨_, _, hok, hok'⟩ <;> rw [hok, hok']
    · dsimp only
      split
      · exact .ok hrest
      · exact .mismatch
    · exact .mismatch
    · exact .failure

theorem filterMap (convert : α → Option β) (hp : Relates R S p q) : Relates R S (p.filterMap convert) (q.filterMap convert) where
  outcome hinput := by
    unfold Parser.filterMap
    rcases hp.cases hinput with ⟨a, _, _, hok, hok', hrest⟩ | ⟨_, _, hok, hok'⟩ | ⟨_, _, hok, hok'⟩ <;> rw [hok, hok']
    · dsimp only
      split
      · exact .ok hrest
      · exact .mismatch
    · exact .mismatch
    · exact .failure

theorem expecting (name : String) (hp : Relates R S p q) : Relates R S (expecting name p) (expecting name q) where
  outcome hinput := by
    unfold Parser.expecting
    rcases hp.cases hinput with ⟨_, _, _, hok, hok', hrest⟩ | ⟨_, _, hok, hok'⟩ | ⟨_, _, hok, hok'⟩ <;> rw [hok, hok']
    · exact .ok hrest
    · exact .mismatch
    · exact .failure

theorem commit (hp : Relates R S p q) : Relates R S (commit p) (commit q) where
  outcome hinput := by
    unfold Parser.commit
    rcases hp.cases hinput with ⟨_, _, _, hok, hok', hrest⟩ | ⟨_, _, hok, hok'⟩ | ⟨_, _, hok, hok'⟩ <;> rw [hok, hok']
    · exact .ok hrest
    · exact .failure
    · exact .failure

/-! ### Choices -/

theorem opt (hp : Relates R S p q) (hmono : ∀ {input input'}, R input input' → S input input') :
    Relates R S (opt p) (opt q) where
  outcome hinput := by
    unfold Parser.opt
    rcases hp.cases hinput with ⟨_, _, _, hok, hok', hrest⟩ | ⟨_, _, hok, hok'⟩ | ⟨_, _, hok, hok'⟩ <;> rw [hok, hok']
    · exact .ok hrest
    · exact .ok (hmono hinput)
    · exact .failure

theorem firstOf {ps qs : List (Parser α)} (hps : List.Forall₂ (Relates R S) ps qs) : Relates R S (firstOf ps) (firstOf qs) where
  outcome hinput := by
    induction hps with
    | nil => exact .mismatch
    | @cons p q ps qs hp hps ih =>
      cases hps with
      | nil =>
        rw [Parser.firstOf, Parser.firstOf]
        rcases hp.cases hinput with ⟨_, _, _, hok, hok', hrest⟩ | ⟨_, _, hok, hok'⟩ | ⟨_, _, hok, hok'⟩ <;> rw [hok, hok']
        · exact .ok hrest
        · exact .mismatch
        · exact .failure
      | cons =>
        rw [Parser.firstOf, Parser.firstOf]
        rcases hp.cases hinput with ⟨_, _, _, hok, hok', hrest⟩ | ⟨_, _, hok, hok'⟩ | ⟨_, _, hok, hok'⟩ <;> rw [hok, hok']
        · exact .ok hrest
        · exact ih
        · exact .failure

/-! ### Repetition -/

variable {separator separator' : Parser β}

theorem many_outcome (hp : Relates R R p q) (hmeasured : Measured R R) {input input' : Text} (hinput : R input input') :
    (many p input).Related R (many q input') := by
  rw [many, many]
  rcases hp.cases hinput with ⟨_, rest, rest', hok, hok', hrest⟩ | ⟨_, _, hok, hok'⟩ | ⟨_, _, hok, hok'⟩ <;> rw [hok, hok'] <;>
    dsimp only
  · by_cases hlt : rest.length < input.length
    · rw [if_pos hlt, if_pos ((hmeasured hinput hrest).1 hlt)]
      exact (many_outcome hp hmeasured hrest).map _
    · rw [if_neg hlt, if_neg (mt (hmeasured hinput hrest).2 hlt)]
      exact .mismatch
  · exact .ok hinput
  · exact .failure
termination_by input.length

theorem many (hp : Relates R R p q) (hmeasured : Measured R R) : Relates R R (many p) (many q) :=
  ⟨many_outcome hp hmeasured⟩

theorem many1 (hfirst : Relates T R p q) (hp : Relates R R p q) (hmeasured : Measured R R) : Relates T R (many1 p) (many1 q) where
  outcome hinput := by
    unfold Parser.many1
    rcases hfirst.cases hinput with ⟨_, _, _, hok, hok', hrest⟩ | ⟨_, _, hok, hok'⟩ | ⟨_, _, hok, hok'⟩ <;> rw [hok, hok']
    · exact ((hp.many hmeasured).outcome hrest).map _
    · exact .mismatch
    · exact .failure

variable {stop stop' : Parser β}

theorem manyTill_outcome (hp : Relates R R p q) (hstop : Relates R S stop stop') (hmeasured : Measured R R) {input input' : Text}
    (hinput : R input input') : (manyTill p stop input).Related S (manyTill q stop' input') := by
  rw [manyTill, manyTill]
  rcases hstop.cases hinput with ⟨_, _, _, hok, hok', hrest⟩ | ⟨_, _, hok, hok'⟩ | ⟨_, _, hok, hok'⟩ <;> rw [hok, hok'] <;>
    dsimp only
  · exact .ok hrest
  · rcases hp.cases hinput with ⟨_, rest, rest', hok, hok', hrest⟩ | ⟨_, _, hok, hok'⟩ | ⟨_, _, hok, hok'⟩ <;>
      rw [hok, hok'] <;> dsimp only
    · by_cases hlt : rest.length < input.length
      · rw [if_pos hlt, if_pos ((hmeasured hinput hrest).1 hlt)]
        exact (manyTill_outcome hp hstop hmeasured hrest).map _
      · rw [if_neg hlt, if_neg (mt (hmeasured hinput hrest).2 hlt)]
        exact .mismatch
    · exact .mismatch
    · exact .failure
  · exact .failure
termination_by input.length

/-- Items are read in the same way up to the same end. -/
theorem manyTill (hp : Relates R R p q) (hstop : Relates R S stop stop') (hmeasured : Measured R R) :
    Relates R S (manyTill p stop) (manyTill q stop') := ⟨manyTill_outcome hp hstop hmeasured⟩

theorem sepTail_outcome (hseparator : Relates R S separator separator') (hp : Relates S R p q) (hmeasured : Measured R R)
    {input input' : Text} (hinput : R input input') :
    (sepTail separator p input).Related R (sepTail separator' q input') := by
  rw [sepTail, sepTail]
  rcases hseparator.cases hinput with ⟨_, behind, behind', hok, hok', hbehind⟩ | ⟨_, _, hok, hok'⟩ | ⟨_, _, hok, hok'⟩ <;>
    rw [hok, hok'] <;> dsimp only
  · rcases hp.cases hbehind with ⟨_, rest, rest', hok, hok', hrest⟩ | ⟨_, _, hok, hok'⟩ | ⟨_, _, hok, hok'⟩ <;>
      rw [hok, hok'] <;> dsimp only
    · by_cases hlt : rest.length < input.length
      · rw [if_pos hlt, if_pos ((hmeasured hinput hrest).1 hlt)]
        exact (sepTail_outcome hseparator hp hmeasured hrest).map _
      · rw [if_neg hlt, if_neg (mt (hmeasured hinput hrest).2 hlt)]
        exact .mismatch
    · exact .ok hinput
    · exact .failure
  · exact .ok hinput
  · exact .failure
termination_by input.length

theorem sepTail (hseparator : Relates R S separator separator') (hp : Relates S R p q) (hmeasured : Measured R R) :
    Relates R R (sepTail separator p) (sepTail separator' q) := ⟨sepTail_outcome hseparator hp hmeasured⟩

/-- The first item stands where `T` says, and the others behind separators. -/
theorem sepBy1 (hfirst : Relates T R p q) (hseparator : Relates R S separator separator') (hp : Relates S R p q)
    (hmeasured : Measured R R) : Relates T R (sepBy1 separator p) (sepBy1 separator' q) :=
  hfirst.bind fun first => (hseparator.sepTail hp hmeasured).bind fun others => .pure (first :: others)

theorem sepBy (hfirst : Relates T R p q) (hseparator : Relates R S separator separator') (hp : Relates S R p q)
    (hmeasured : Measured R R) (hmono : ∀ {input input'}, T input input' → R input input') :
    Relates T R (sepBy separator p) (sepBy separator' q) where
  outcome hinput := by
    unfold Parser.sepBy
    rcases hfirst.cases hinput with ⟨_, _, _, hok, hok', hrest⟩ | ⟨_, _, hok, hok'⟩ | ⟨_, _, hok, hok'⟩ <;> rw [hok, hok']
    · exact ((hseparator.sepTail hp hmeasured).outcome hrest).map _
    · exact .ok (hmono hinput)
    · exact .failure

/-- The relations may differ from level to level of a knot: where it is entered again, another index may be due. -/
theorem recurse {ι : Type} {R S : ι → Text → Text → Prop} {body body' : Parser α → Parser α}
    (hmeasured : ∀ i j, Measured (R i) (R j))
    (hbody : ∀ p q, (∀ i, Relates (R i) (S i) p q) → ∀ i, Relates (R i) (S i) (body p) (body' q)) (i : ι) :
    Relates (R i) (S i) (recurse body) (recurse body') where
  outcome {input input'} hinput := by
    induction input using Parser.recurse.induct generalizing i input' with
    | _ input ih =>
      rw [Parser.recurse, Parser.recurse]
      refine (hbody _ _ (fun j => ⟨fun {rest rest'} hrest => ?_⟩) i).outcome hinput
      by_cases hlt : rest.length < input.length
      · rw [if_pos hlt, if_pos ((hmeasured i j hinput hrest).1 hlt)]
        exact ih rest hlt j hrest
      · rw [if_neg hlt, if_neg (mt (hmeasured i j hinput hrest).2 hlt)]
        exact .mismatch

end Relates

end Parser

end HeaderOutline
