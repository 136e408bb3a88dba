import Mathlib
import HeaderOutline.Proofs.Grammar
import HeaderOutline.Proofs.Lexeme.Scan
import HeaderOutline.Proofs.Parser.Reading
/-!
# Runs in step

A text and the same text with one more line feed at its end are read by two runs. `InStep` says that the runs do
the same: they read the same value, or both mismatch, or both fail. What they have left is again apart by the line
feed, until one of them takes it in as white space or as the end of a line; from then on there is nothing left for
either. A parser that *keeps* the line feed never comes to that point by itself, which is what has to be known where
the text that was read is part of the value.

The class is about two parsers, since a recursive knot is another parser in either run.
-/

namespace HeaderOutline

/-- A line comment up to a carriage return at the end of the text: half of a line ending. -/
def IsCutComment (text : Text) : Prop := text.take 2 = ['/', '/'] ∧ text.dropWhile Parser.isInLine = ['\r']

instance (text : Text) : Decidable (IsCutComment text) := inferInstanceAs (Decidable (_ ∧ _))

/-- The text does not end in a line comment that is cut off in its line ending. -/
def IsWhole (text : Text) : Prop := ∀ rest ∈ text.tails, ¬IsCutComment rest

instance (text : Text) : Decidable (IsWhole text) := inferInstanceAs (Decidable (∀ rest ∈ _, _))

theorem IsWhole.suffix {text rest : Text} (htext : IsWhole text) (hrest : rest <:+ text) : IsWhole rest := by
  intro last hlast
  rw [List.mem_tails] at hlast
  exact htext last ((List.mem_tails ..).2 (hlast.trans hrest))

/-- Behind the mark of a line comment, the line is not cut off. -/
theorem IsWhole.line {line : Text} (htext : IsWhole ('/' :: '/' :: line)) : line.dropWhile Parser.isInLine ≠ ['\r'] := fun hline =>
  htext _ ((List.mem_tails ..).2 (List.suffix_refl _)) ⟨rfl, hline⟩

/-- What two runs have left: one line feed more in the second one, as long as it is still ahead. -/
inductive Ahead : (ahead : Bool) → Text → Text → Prop
  | feed {text : Text} (htext : IsWhole text) : Ahead true text (text ++ ['\n'])
  | done : Ahead false [] []

/-- The line feed is still ahead, or it has been taken in on the way. -/
def Passes (keeps before behind : Bool) : Prop := behind = before ∨ keeps = false ∧ behind = false

theorem Passes.refl (keeps ahead : Bool) : Passes keeps ahead ahead := .inl rfl

theorem Passes.trans {keeps before between behind : Bool} (hfirst : Passes keeps before between)
    (hsecond : Passes keeps between behind) : Passes keeps before behind := by
  rcases hsecond with rfl | hsecond
  · exact hfirst
  · exact .inr hsecond

theorem Passes.loosen {keeps before behind : Bool} (hpasses : Passes keeps before behind) : Passes false before behind :=
  hpasses.imp id fun hmerged => ⟨rfl, hmerged.2⟩

/-- A step of the first run makes progress if the step of the second one does. -/
theorem Ahead.length_lt_iff {before behind : Bool} {input input' rest rest' : Text} (hinput : Ahead before input input')
    (hrest : Ahead behind rest rest') (hne : input ≠ []) : rest.length < input.length ↔ rest'.length < input'.length := by
  have hpos := List.length_pos_iff.2 hne
  cases hinput with
  | done => exact absurd rfl hne
  | feed _ =>
    cases hrest with
    | feed _ =>
      simp only [List.length_append]
      omega
    | done => simp [hpos]

/-- Behind the line feed there is nothing. -/
theorem Ahead.nil {ahead : Bool} {rest rest' : Text} (hrest : Ahead ahead rest rest') (hdone : ahead = false) :
    rest = [] ∧ rest' = [] := by
  cases hrest with
  | feed _ => cases hdone
  | done => exact ⟨rfl, rfl⟩

/-- As long as the line feed is ahead, both runs have consumed the same text. -/
theorem Ahead.consumed_eq {ahead : Bool} {input input' rest rest' : Text} (hinput : Ahead ahead input input')
    (hrest : Ahead ahead rest rest') :
    input'.take (input'.length - rest'.length) = input.take (input.length - rest.length) := by
  cases hinput with
  | feed _ =>
    cases hrest
    rw [List.length_append, List.length_append, Nat.add_sub_add_right, List.take_append_of_le_length (Nat.sub_le ..)]
  | done =>
    cases hrest
    rfl

namespace Outcome

variable {α β : Type} {keeps before : Bool}

/-- Two runs come to the same. -/
inductive InStep (keeps before : Bool) : Outcome α → Outcome α → Prop
  | ok {a : α} {behind : Bool} {rest rest' : Text} (hrest : Ahead behind rest rest') (hpasses : Passes keeps before behind) :
    InStep keeps before (.ok a rest) (.ok a rest')
  | mismatch {trace trace' : Trace} : InStep keeps before (.mismatch trace) (.mismatch trace')
  | failure {trace trace' : Trace} : InStep keeps before (.failure trace) (.failure trace')

theorem InStep.map {outcome outcome' : Outcome α} (hsteps : InStep keeps before outcome outcome') (f : α → β) :
    InStep keeps before (outcome.map f) (outcome'.map f) := by
  cases hsteps with
  | ok hrest hpasses => exact .ok hrest hpasses
  | mismatch => exact .mismatch
  | failure => exact .failure

theorem InStep.behind {between : Bool} {outcome outcome' : Outcome α} (hpasses : Passes keeps before between)
    (hsteps : InStep keeps between outcome outcome') : InStep keeps before outcome outcome' := by
  cases hsteps with
  | ok hrest hbehind => exact .ok hrest (hpasses.trans hbehind)
  | mismatch => exact .mismatch
  | failure => exact .failure

theorem InStep.loosen {outcome outcome' : Outcome α} (hsteps : InStep keeps before outcome outcome') :
    InStep false before outcome outcome' := by
  cases hsteps with
  | ok hrest hpasses => exact .ok hrest hpasses.loosen
  | mismatch => exact .mismatch
  | failure => exact .failure

theorem InStep.cases {outcome outcome' : Outcome α} (hsteps : InStep keeps before outcome outcome') :
    (∃ a rest rest' behind, outcome = .ok a rest ∧ outcome' = .ok a rest' ∧ Ahead behind rest rest' ∧
      Passes keeps before behind) ∨
    (∃ trace trace', outcome = .mismatch trace ∧ outcome' = .mismatch trace') ∨
    ∃ trace trace', outcome = .failure trace ∧ outcome' = .failure trace' := by
  cases hsteps with
  | ok hrest hpasses => exact .inl ⟨_, _, _, _, rfl, rfl, hrest, hpasses⟩
  | mismatch => exact .inr (.inl ⟨_, _, rfl, rfl⟩)
  | failure => exact .inr (.inr ⟨_, _, rfl, rfl⟩)

/-- Nothing was read, or nothing is left to read. -/
def Spent (outcome : Outcome α) : Prop := (∃ trace, outcome = .mismatch trace) ∨ ∃ a, outcome = .ok a []

theorem Spent.andThen {outcome : Outcome α} {f : α → Parser β} (hspent : outcome.Spent)
    (hf : ∀ a, ∃ trace, f a [] = .mismatch trace) : ∃ trace, outcome.andThen f = .mismatch trace := by
  rcases hspent with ⟨trace, rfl⟩ | ⟨a, rfl⟩
  · exact ⟨trace, rfl⟩
  · exact hf a

end Outcome

namespace Parser

variable {α β : Type} {keeps : Bool}

/-- The parsers do the same on a text and on the text with one more line feed. -/
class InStep (keeps : Bool) (p q : Parser α) : Prop where
  outcome : ∀ {ahead input input'}, Ahead ahead input input' → (p input).InStep keeps ahead (q input')

/-- The three ways in which two runs can come to the same. -/
theorem InStep.cases (keeps : Bool) (p q : Parser α) [InStep keeps p q] {before : Bool} {input input' : Text}
    (hinput : Ahead before input input') :
    (∃ a rest rest' behind, p input = .ok a rest ∧ q input' = .ok a rest' ∧ Ahead behind rest rest' ∧
      Passes keeps before behind) ∨
    (∃ trace trace', p input = .mismatch trace ∧ q input' = .mismatch trace') ∨
    ∃ trace trace', p input = .failure trace ∧ q input' = .failure trace' :=
  (InStep.outcome hinput).cases

/-- A parser that reads nothing past the text it knows. -/
theorem InStep.of_append {p : Parser α} [BoundedBy [] p]
    (hok : ∀ {input a rest}, IsWhole input → p input = .ok a rest → p (input ++ ['\n']) = .ok a (rest ++ ['\n']))
    (hmismatch : ∀ {input trace}, IsWhole input → p input = .mismatch trace → Mismatches p (input ++ ['\n'])) :
    InStep keeps p p where
  outcome {ahead input input'} hinput := by
    cases hp : p input with
    | failure trace => exact absurd hp (BoundedBy.ne_failure input trace)
    | mismatch trace =>
      cases hinput with
      | feed hwhole =>
        obtain ⟨trace', hp'⟩ := hmismatch hwhole hp
        rw [hp']
        exact .mismatch
      | done =>
        rw [hp]
        exact .mismatch
    | ok a rest =>
      have hsuffix := BoundedBy.suffix [] hp
      cases hinput with
      | feed hwhole =>
        rw [hok hwhole hp]
        exact .ok (.feed (hwhole.suffix hsuffix)) (.refl ..)
      | done =>
        obtain rfl := List.suffix_nil.1 hsuffix
        rw [hp]
        exact .ok .done (.refl ..)

/-! ### Combinators -/

section Combinators

variable {p q : Parser α}

instance (a : α) : InStep keeps (pure a : Parser α) (pure a) where
  outcome hinput := .ok hinput (.refl ..)

instance (cause : Cause) : InStep keeps (mismatch cause : Parser α) (mismatch cause) where
  outcome _ := .mismatch

instance (name : String) : InStep keeps (unrecognized name : Parser α) (unrecognized name) where
  outcome _ := .failure

theorem InStep.andThen {f g : α → Parser β} {before : Bool} {outcome outcome' : Outcome α}
    (hsteps : outcome.InStep keeps before outcome') (hf : ∀ a, InStep keeps (f a) (g a)) :
    (outcome.andThen f).InStep keeps before (outcome'.andThen g) := by
  cases hsteps with
  | ok hrest hpasses => exact ((hf _).outcome hrest).behind hpasses
  | mismatch => exact .mismatch
  | failure => exact .failure

theorem InStep.bind {f g : α → Parser β} (hp : InStep keeps p q) (hf : ∀ a, InStep keeps (f a) (g a)) :
    InStep keeps (p >>= f) (q >>= g) where
  outcome hinput := InStep.andThen (hp.outcome hinput) hf

/-- What stands in front may take in the line feed, since then there is nothing left for the parser behind it. -/
theorem InStep.bind_consuming {f g : α → Parser β} (hp : InStep false p q) (hf : ∀ a, InStep keeps (f a) (g a))
    (hconsuming : ∀ a, Consuming (f a)) : InStep keeps (p >>= f) (q >>= g) where
  outcome {ahead input input'} hinput := by
    rw [bind_apply, bind_apply]
    rcases InStep.cases false p q hinput with ⟨a, rest, rest', behind, hp, hq, hrest, hpasses⟩ | ⟨_, _, hp, hq⟩ | ⟨_, _, hp, hq⟩
      <;> rw [hp, hq]
    · change Outcome.InStep keeps ahead (f a rest) (g a rest')
      rcases hpasses with rfl | ⟨-, hdone⟩
      · exact (hf a).outcome hrest
      · obtain ⟨rfl, rfl⟩ := hrest.nil hdone
        rcases InStep.cases keeps (f a) (g a) .done with ⟨b, mid, _, _, hb, -⟩ | ⟨_, _, hb, hb'⟩ | ⟨_, _, hb, hb'⟩
        · exact absurd ((hconsuming a).lt hb) (Nat.not_lt_zero _)
        · rw [hb, hb']
          exact .mismatch
        · rw [hb, hb']
          exact .failure
    · exact .mismatch
    · exact .failure

instance (priority := low) {f g : α → Parser β} [hp : InStep keeps p q] [hf : ∀ a, InStep keeps (f a) (g a)] :
    InStep keeps (p >>= f) (q >>= g) := .bind hp hf

instance (priority := low) {f g : α → Parser β} [hp : InStep false p q] [hf : ∀ a, InStep keeps (f a) (g a)]
    [hconsuming : ∀ a, Consuming (f a)] : InStep keeps (p >>= f) (q >>= g) := .bind_consuming hp hf hconsuming

instance {f : α → β} [InStep keeps p q] : InStep keeps (f <$> p) (f <$> q) where
  outcome hinput := by
    rw [map_apply, map_apply]
    exact (InStep.outcome hinput).map f

theorem bind_const_eq (p : Parser α) (q : Parser β) : (p >>= fun _ => q) = (fun _ => ()) <$> p >>= fun _ => q :=
  (bind_map_left _ p fun _ => q).symm

/-- The value of what stands in front does not count if nobody looks at it. -/
instance {p' q' : Parser β} [InStep false ((fun _ => ()) <$> p) ((fun _ => ()) <$> q)] [InStep false p' q'] :
    InStep false (p >>= fun _ => p') (q >>= fun _ => q') := by
  rw [bind_const_eq p, bind_const_eq q]
  infer_instance

instance {p' q' : Parser β} [InStep false ((fun _ => ()) <$> p) ((fun _ => ()) <$> q)] [InStep keeps p' q'] [Consuming p'] :
    InStep keeps (p >>= fun _ => p') (q >>= fun _ => q') := by
  rw [bind_const_eq p, bind_const_eq q]
  infer_instance

instance {property : Prop} [Decidable property] {p' q' : Parser α} [InStep keeps p q] [InStep keeps p' q'] :
    InStep keeps (if property then p else p') (if property then q else q') := by
  split <;> infer_instance

/-- The same text is taken if the line feed is not. -/
theorem InStep.textOf_outcome {before : Bool} {input input' : Text} (hinput : Ahead before input input')
    (hsteps : (p input).InStep true before (q input')) : (textOf p input).InStep keeps before (textOf q input') := by
  unfold textOf
  rcases hsteps.cases with ⟨a, rest, rest', behind, hp, hq, hrest, hpasses⟩ | ⟨_, _, hp, hq⟩ | ⟨_, _, hp, hq⟩ <;> rw [hp, hq]
  · obtain rfl : behind = before := hpasses.resolve_right fun hmerged => Bool.noConfusion hmerged.1
    dsimp only
    rw [hinput.consumed_eq hrest]
    exact .ok hrest (.refl ..)
  · exact .mismatch
  · exact .failure

instance [InStep true p q] : InStep keeps (textOf p) (textOf q) where
  outcome hinput := InStep.textOf_outcome hinput (InStep.outcome hinput)

theorem InStep.lookahead_outcome {before : Bool} {input input' : Text} (hinput : Ahead before input input')
    (hsteps : (p input).InStep false before (q input')) : (lookahead p input).InStep keeps before (lookahead q input') := by
  unfold lookahead
  rcases hsteps.cases with ⟨a, rest, rest', behind, hp, hq, -⟩ | ⟨_, _, hp, hq⟩ | ⟨_, _, hp, hq⟩ <;> rw [hp, hq]
  · exact .ok hinput (.refl ..)
  · exact .mismatch
  · exact .failure

instance [InStep false p q] : InStep keeps (lookahead p) (lookahead q) where
  outcome hinput := InStep.lookahead_outcome hinput (InStep.outcome hinput)

instance [InStep false p q] : InStep keeps (notFollowedBy p) (notFollowedBy q) where
  outcome hinput := by
    unfold notFollowedBy
    rcases InStep.cases false p q hinput with ⟨a, rest, rest', behind, hp, hq, -⟩ | ⟨_, _, hp, hq⟩ | ⟨_, _, hp, hq⟩
      <;> rw [hp, hq]
    · exact .mismatch
    · exact .ok hinput (.refl ..)
    · exact .failure

instance {property : α → Bool} [InStep keeps p q] : InStep keeps (p.filter property) (q.filter property) where
  outcome hinput := by
    unfold filter
    rcases InStep.cases keeps p q hinput with ⟨a, rest, rest', behind, hp, hq, hrest, hpasses⟩ | ⟨_, _, hp, hq⟩ | ⟨_, _, hp, hq⟩
      <;> rw [hp, hq]
    · dsimp only
      split
      · exact .ok hrest hpasses
      · exact .mismatch
    · exact .mismatch
    · exact .failure

instance {convert : α → Option β} [InStep keeps p q] : InStep keeps (p.filterMap convert) (q.filterMap convert) where
  outcome hinput := by
    unfold filterMap
    rcases InStep.cases keeps p q hinput with ⟨a, rest, rest', behind, hp, hq, hrest, hpasses⟩ | ⟨_, _, hp, hq⟩ | ⟨_, _, hp, hq⟩
      <;> rw [hp, hq]
    · dsimp only
      split
      · exact .ok hrest hpasses
      · exact .mismatch
    · exact .mismatch
    · exact .failure

instance {name : String} [InStep keeps p q] : InStep keeps (commit (expecting name p)) (commit (expecting name q)) where
  outcome hinput := by
    unfold commit expecting
    rcases InStep.cases keeps p q hinput with ⟨a, rest, rest', behind, hp, hq, hrest, hpasses⟩ | ⟨_, _, hp, hq⟩ | ⟨_, _, hp, hq⟩
      <;> rw [hp, hq]
    · exact .ok hrest hpasses
    · exact .failure
    · exact .failure

instance [InStep keeps p q] : InStep keeps (opt p) (opt q) where
  outcome hinput := by
    unfold opt
    rcases InStep.cases keeps p q hinput with ⟨a, rest, rest', behind, hp, hq, hrest, hpasses⟩ | ⟨_, _, hp, hq⟩ | ⟨_, _, hp, hq⟩
      <;> rw [hp, hq]
    · exact .ok hrest hpasses
    · exact .ok hinput (.refl ..)
    · exact .failure

theorem InStep.firstOf_singleton {before : Bool} {input input' : Text} (hsteps : (p input).InStep keeps before (q input')) :
    (firstOf [p] input).InStep keeps before (firstOf [q] input') := by
  unfold firstOf
  rcases hsteps.cases with ⟨a, rest, rest', behind, hp, hq, hrest, hpasses⟩ | ⟨_, _, hp, hq⟩ | ⟨_, _, hp, hq⟩ <;> rw [hp, hq]
  · exact .ok hrest hpasses
  · exact .mismatch
  · exact .failure

theorem InStep.firstOf_cons {p' q' : Parser α} {ps qs : List (Parser α)} {before : Bool} {input input' : Text}
    (hsteps : (p input).InStep keeps before (q input'))
    (hothers : (firstOf (p' :: ps) input).InStep keeps before (firstOf (q' :: qs) input')) :
    (firstOf (p :: p' :: ps) input).InStep keeps before (firstOf (q :: q' :: qs) input') := by
  rw [firstOf, firstOf]
  rcases hsteps.cases with ⟨a, rest, rest', behind, hp, hq, hrest, hpasses⟩ | ⟨_, _, hp, hq⟩ | ⟨_, _, hp, hq⟩ <;> rw [hp, hq]
  · exact .ok hrest hpasses
  · exact hothers
  · exact .failure

instance [InStep keeps p q] : InStep keeps (firstOf [p]) (firstOf [q]) where
  outcome hinput := InStep.firstOf_singleton (InStep.outcome hinput)

instance {p' q' : Parser α} {ps qs : List (Parser α)} [InStep keeps p q] [InStep keeps (firstOf (p' :: ps)) (firstOf (q' :: qs))] :
    InStep keeps (firstOf (p :: p' :: ps)) (firstOf (q :: q' :: qs)) where
  outcome hinput := InStep.firstOf_cons (InStep.outcome hinput) (InStep.outcome hinput)

end Combinators

/-! ### Repetition -/

section Repetition

variable {p q : Parser α} {separator separator' : Parser β}

theorem Consuming.ne_nil [Consuming p] {a : α} {input rest : Text} (hp : p input = .ok a rest) : input ≠ [] := by
  rintro rfl
  exact absurd (Consuming.lt hp) (Nat.not_lt_zero _)

theorem InStep.many_outcome [InStep keeps p q] [Consuming p] {before : Bool} {input input' : Text}
    (hinput : Ahead before input input') : (many p input).InStep keeps before (many q input') := by
  rw [many, many]
  rcases InStep.cases keeps p q hinput with ⟨a, rest, rest', behind, hp, hq, hrest, hpasses⟩ | ⟨_, _, hp, hq⟩ | ⟨_, _, hp, hq⟩
    <;> rw [hp, hq]
  · have hlt : rest.length < input.length := Consuming.lt hp
    dsimp only
    rw [if_pos hlt, if_pos ((hinput.length_lt_iff hrest (Consuming.ne_nil hp)).1 hlt)]
    exact ((many_outcome hrest).map _).behind hpasses
  · exact .ok hinput (.refl ..)
  · exact .failure
termination_by input.length

instance [InStep keeps p q] [Consuming p] : InStep keeps (many p) (many q) := ⟨InStep.many_outcome⟩

instance [InStep keeps p q] [Consuming p] : InStep keeps (many1 p) (many1 q) where
  outcome hinput := by
    unfold many1
    rcases InStep.cases keeps p q hinput with ⟨a, rest, rest', behind, hp, hq, hrest, hpasses⟩ | ⟨_, _, hp, hq⟩ | ⟨_, _, hp, hq⟩
      <;> rw [hp, hq]
    · exact ((InStep.many_outcome hrest).map _).behind hpasses
    · exact .mismatch
    · exact .failure

theorem sepTail_of_spent {input : Text} (hspent : (separator input).Spent) (hend : Mismatches p []) :
    sepTail separator p input = .ok [] input := by
  rcases hspent with hmismatch | ⟨b, hseparator⟩
  · exact sepTail_of_mismatch hmismatch
  · exact sepTail_of_item_mismatch hseparator hend

/-- Where the separators do not come to the same, there must be no item behind either of them. -/
theorem InStep.sepTail_outcome [Consuming separator] [InStep keeps p q]
    (hseparator : ∀ {before input input'}, Ahead before input input' → (separator input).InStep keeps before (separator' input') ∨
      ((separator input).Spent ∧ (separator' input').Spent ∧ Mismatches p [] ∧ Mismatches q []))
    {before : Bool} {input input' : Text} (hinput : Ahead before input input') :
    (sepTail separator p input).InStep keeps before (sepTail separator' q input') := by
  rcases hseparator hinput with hsteps | ⟨hspent, hspent', hend, hend'⟩
  · rw [sepTail, sepTail]
    rcases hsteps.cases with ⟨b, mid, mid', between, hmark, hmark', hmid, hbetween⟩ | ⟨_, _, hmark, hmark'⟩ | ⟨_, _, hmark, hmark'⟩
      <;> rw [hmark, hmark']
    · dsimp only
      rcases InStep.cases keeps p q hmid with ⟨a, rest, rest', behind, hp, hq, hrest, hbehind⟩ | ⟨_, _, hp, hq⟩ | ⟨_, _, hp, hq⟩
        <;> rw [hp, hq]
      · have hpasses := hbetween.trans hbehind
        have hlength := hinput.length_lt_iff hrest (Consuming.ne_nil hmark)
        dsimp only
        by_cases hlt : rest.length < input.length
        · rw [if_pos hlt, if_pos (hlength.1 hlt)]
          exact ((sepTail_outcome hseparator hrest).map _).behind hpasses
        · rw [if_neg hlt, if_neg (mt hlength.2 hlt)]
          exact .mismatch
      · exact .ok hinput (.refl ..)
      · exact .failure
    · exact .ok hinput (.refl ..)
    · exact .failure
  · rw [sepTail_of_spent hspent hend, sepTail_of_spent hspent' hend']
    exact .ok hinput (.refl ..)
termination_by input.length

instance [InStep keeps separator separator'] [Consuming separator] [InStep keeps p q] :
    InStep keeps (sepTail separator p) (sepTail separator' q) :=
  ⟨InStep.sepTail_outcome fun hinput => .inl (InStep.outcome hinput)⟩

instance [InStep keeps separator separator'] [Consuming separator] [InStep keeps p q] :
    InStep keeps (sepBy1 separator p) (sepBy1 separator' q) := by
  unfold sepBy1
  infer_instance

instance [InStep keeps separator separator'] [Consuming separator] [InStep keeps p q] :
    InStep keeps (sepBy separator p) (sepBy separator' q) where
  outcome hinput := by
    unfold sepBy
    rcases InStep.cases keeps p q hinput with ⟨a, rest, rest', behind, hp, hq, hrest, hpasses⟩ | ⟨_, _, hp, hq⟩ | ⟨_, _, hp, hq⟩
      <;> rw [hp, hq]
    · exact ((InStep.outcome hrest).map _).behind hpasses
    · exact .ok hinput (.refl ..)
    · exact .failure

/-- Inside the knot, the runs have the knot on shorter inputs. Where only the second run has a shorter input, it has
come to the end. -/
theorem InStep.recurse {body body' : Parser α → Parser α} (hend : ∀ p, Mismatches (body' p) [])
    (hbody : ∀ p q, InStep keeps p q → InStep keeps (body p) (body' q)) : InStep keeps (recurse body) (recurse body') where
  outcome {ahead input input'} hinput := by
    induction input using recurse.induct generalizing ahead input' with
    | _ input ih =>
      rw [Parser.recurse, Parser.recurse]
      refine (hbody _ _ ⟨fun {_ rest rest'} hrest => ?_⟩).outcome hinput
      by_cases hnil : input = []
      · rw [if_neg fun hlt => absurd (hnil ▸ hlt) (Nat.not_lt_zero _)]
        split
        · next hlt' =>
          have hinput' : input'.length ≤ 1 := by
            rw [hnil] at hinput
            cases hinput <;> simp
          have hnil' : rest' = [] := List.eq_nil_of_length_eq_zero (by omega)
          obtain ⟨trace, hmismatch⟩ := hend fun rest => if rest.length < ([] : Text).length then Parser.recurse body' rest else .mismatch []
          rw [hnil', Parser.recurse, hmismatch]
          exact .mismatch
        · exact .mismatch
      · have hlength := hinput.length_lt_iff hrest hnil
        by_cases hlt : rest.length < input.length
        · rw [if_pos hlt, if_pos (hlength.1 hlt)]
          exact ih rest hlt hrest
        · rw [if_neg hlt, if_neg (mt hlength.2 hlt)]
          exact .mismatch

end Repetition

end Parser

/-! ### Primitive parsers -/

namespace Text

theorem after?_lineFeed {lead : Text} (hlead : '\n' ∉ lead) (text : Text) :
    after? lead (text ++ ['\n']) = (after? lead text).map (· ++ ['\n']) :=
  after?_append (by rintro c ⟨⟩; exact hlead) text

theorem splitBefore?_lineFeed {mark : Text} (hmark : mark ≠ []) (hline : '\n' ∉ mark) (text : Text) :
    splitBefore? mark (text ++ ['\n']) = (splitBefore? mark text).map fun parts => (parts.1, parts.2 ++ ['\n']) := by
  obtain ⟨a, tail, rfl⟩ := List.exists_cons_of_ne_nil hmark
  induction text with
  | nil =>
    have hafter : after? (a :: tail) ['\n'] = none := after?_lineFeed hline []
    simp only [List.nil_append, splitBefore?, hafter]
    rfl
  | cons c text ih =>
    have hafter := after?_lineFeed hline (c :: text)
    rw [List.cons_append] at hafter ⊢
    rw [splitBefore?, splitBefore?, hafter, Option.isSome_map, ih]
    split
    · rfl
    · cases splitBefore? (a :: tail) text <;> rfl

end Text

section Run

variable {property : Char → Bool}

theorem takeWhile_lineFeed (hproperty : property '\n' = false) (text : Text) :
    (text ++ ['\n']).takeWhile property = text.takeWhile property :=
  takeWhile_append_of_head (by rintro c ⟨⟩; exact hproperty) text

theorem takeWhile_lineFeed_of_ne (htext : text.dropWhile property ≠ []) :
    (text ++ ['\n']).takeWhile property = text.takeWhile property := by
  rw [List.takeWhile_append, if_neg fun hall => htext ?_]
  have hlength := congrArg List.length (List.takeWhile_append_dropWhile (p := property) (l := text))
  rw [List.length_append, hall] at hlength
  exact List.eq_nil_of_length_eq_zero (by omega)

theorem dropWhile_lineFeed_of_ne (htext : text.dropWhile property ≠ []) :
    (text ++ ['\n']).dropWhile property = text.dropWhile property ++ ['\n'] := by
  rw [List.dropWhile_append, if_neg fun hempty => htext (List.isEmpty_iff.1 hempty)]

theorem dropWhile_lineFeed (hproperty : property '\n' = false) (text : Text) :
    (text ++ ['\n']).dropWhile property = text.dropWhile property ++ ['\n'] :=
  dropWhile_append_of_head (by rintro c ⟨⟩; exact hproperty) text

end Run

namespace Parser

variable {α β : Type} {keeps : Bool}

/-- Words that are there and stay on one line. -/
class Solid (words : List String) : Prop where
  solid : ∀ word ∈ words, word.toList ≠ [] ∧ '\n' ∉ word.toList

theorem InStep.char {c : Char} (hc : c ≠ '\n') : InStep keeps (char c) (char c) :=
  .of_append
    (fun _ hok => by
      obtain ⟨rfl, rfl⟩ := char_eq_ok.1 hok
      exact char_cons _ _)
    (fun {input _} _ hmismatch => char_of_ne fun hhead => by
      cases input with
      | nil => exact hc (Option.some.inj hhead).symm
      | cons d rest =>
        obtain rfl := Option.some.inj hhead
        rw [char_cons] at hmismatch
        cases hmismatch)

/-- A character with a code above that of the line feed is another one. -/
instance (n : Nat) : InStep keeps (char (Char.ofNat (n + 11))) (char (Char.ofNat (n + 11))) := by
  refine .char fun heq => ?_
  have hcode := congrArg Char.toNat heq
  unfold Char.ofNat at hcode
  split at hcode
  · have hn : n + 11 = 10 := hcode
    omega
  · exact absurd hcode (by decide)

theorem InStep.satisfy {property : Char → Bool} (hproperty : property '\n' = false) :
    InStep keeps (satisfy property) (satisfy property) :=
  .of_append
    (fun _ hok => by
      obtain ⟨hc, rfl⟩ := satisfy_eq_ok.1 hok
      exact satisfy_cons hc _)
    (fun {input _} _ hmismatch => satisfy_of_not fun c hhead => by
      cases input with
      | nil =>
        obtain rfl := Option.some.inj hhead
        exact hproperty
      | cons d rest =>
        obtain rfl := Option.some.inj hhead
        refine Bool.eq_false_iff.2 fun hd => ?_
        rw [satisfy_cons hd] at hmismatch
        cases hmismatch)

theorem InStep.oneOf {chars : Text} (hchars : '\n' ∉ chars) : InStep keeps (oneOf chars) (oneOf chars) where
  outcome {ahead input input'} hinput := by
    cases hinput with
    | done => exact .mismatch
    | feed hwhole =>
      cases input with
      | nil =>
        have hmismatch : Parser.oneOf chars ['\n'] = .mismatch [⟨['\n'], .rule .member⟩] :=
          if_neg fun hmem => hchars (List.contains_iff_mem.1 hmem)
        rw [List.nil_append, hmismatch]
        exact .mismatch
      | cons c rest =>
        simp only [Parser.oneOf, List.cons_append]
        split
        · exact .ok (.feed (hwhole.suffix (List.suffix_cons c rest))) (.refl ..)
        · exact .mismatch

section Word

variable {word : String} [hword : Solid [word]]

instance : InStep keeps (literal word) (literal word) := by
  have hline := (hword.solid word List.mem_cons_self).2
  refine .of_append (fun {input text rest} _ hok => ?_) fun {input trace} _ hmismatch => ?_
  · obtain ⟨rfl, rfl⟩ := literal_eq_ok.1 hok
    rw [List.append_assoc]
    exact literal_append word _
  · unfold literal at hmismatch
    split at hmismatch
    · cases hmismatch
    · next hnone =>
      unfold Mismatches literal
      rw [Text.after?_lineFeed hline, hnone]
      exact ⟨_, rfl⟩

instance : InStep keeps (takeUntil word) (takeUntil word) := by
  obtain ⟨hne, hline⟩ := hword.solid word List.mem_cons_self
  refine .of_append (fun {input text rest} _ hok => ?_) fun {input trace} _ hmismatch => ?_
  · unfold takeUntil at hok ⊢
    rw [Text.splitBefore?_lineFeed hne hline]
    cases hsplit : Text.splitBefore? word.toList input with
    | none => rw [hsplit] at hok; cases hok
    | some parts => rw [hsplit] at hok; cases hok; rfl
  · unfold takeUntil at hmismatch
    unfold Mismatches takeUntil
    rw [Text.splitBefore?_lineFeed hne hline]
    cases hsplit : Text.splitBefore? word.toList input with
    | none => exact ⟨_, rfl⟩
    | some parts => rw [hsplit] at hmismatch; cases hmismatch

instance : Consuming (literal word) := .literal word (hword.solid word List.mem_cons_self).1

end Word

/-! Runs of characters -/

theorem InStep.takeWhile {property : Char → Bool} (hproperty : property '\n' = false) :
    InStep keeps (takeWhile property) (takeWhile property) :=
  .of_append
    (fun {input _ _} _ hok => by
      cases hok
      rw [Parser.takeWhile, takeWhile_lineFeed hproperty, dropWhile_lineFeed hproperty])
    (fun _ hmismatch => by cases hmismatch)

instance : InStep keeps blanks0 blanks0 := .takeWhile rfl

/-- White space may take in the line feed, and then the text of it is another one. -/
instance : InStep false ((fun _ => ()) <$> spaces0) ((fun _ => ()) <$> spaces0) where
  outcome {ahead input input'} hinput := by
    change Outcome.InStep false ahead (.ok () (input.dropWhile isSpace)) (.ok () (input'.dropWhile isSpace))
    cases hinput with
    | done => exact .ok .done (.refl ..)
    | feed hwhole =>
      by_cases hinput : input.dropWhile isSpace = []
      · rw [List.dropWhile_append, hinput]
        exact .ok .done (.inr ⟨rfl, rfl⟩)
      · rw [dropWhile_lineFeed_of_ne hinput]
        exact .ok (.feed (hwhole.suffix (List.dropWhile_suffix _))) (.refl ..)

theorem restOfLine_of_head {input : Text} (hinput : (input.dropWhile isInLine).head? ≠ some '\r') :
    restOfLine input = .ok (input.takeWhile isInLine) (input.dropWhile isInLine) := by
  unfold restOfLine
  split
  · next heq => exact absurd (congrArg List.head? heq) hinput
  · next heq => exact absurd (congrArg List.head? heq) hinput
  · rfl

theorem dropWhile_isInLine_lineFeed (text : Text) : (text ++ ['\n']).dropWhile isInLine = text.dropWhile isInLine ++ ['\n'] :=
  dropWhile_lineFeed rfl text

/-- What is left of a line is nothing, or it begins with a line ending. -/
theorem restOfLine_rest_ne {input text rest : Text} (hline : restOfLine input = .ok text rest) : rest ≠ ['\r'] := by
  rintro rfl
  unfold restOfLine at hline
  split at hline
  · cases hline
  · cases hline
  · next hreturn =>
    have hdrop : input.dropWhile isInLine = ['\r'] := (Outcome.ok.inj hline).2
    exact hreturn [] hdrop

/-- A carriage return inside of a line. -/
theorem restOfLine_of_return {input rest : Text} {d : Char} (hd : d ≠ '\n') (hinput : input.dropWhile isInLine = '\r' :: d :: rest) :
    Mismatches restOfLine input := by
  unfold Mismatches restOfLine
  rw [hinput]
  split
  · next heq => exact absurd (List.cons.inj (List.cons.inj heq).2).1 hd
  · exact ⟨_, rfl⟩
  · next hreturn => exact absurd rfl (hreturn _)

/-- A line is the same in both runs, unless the line feed belongs to its ending. -/
theorem restOfLine_outcome {before : Bool} {input input' : Text} (hinput : Ahead before input input')
    (hline : input.dropWhile isInLine ≠ ['\r']) : (restOfLine input).InStep keeps before (restOfLine input') := by
  cases hinput with
  | done => exact .ok .done (.refl ..)
  | feed hwhole =>
    have hsuffix : input.dropWhile isInLine <:+ input := List.dropWhile_suffix isInLine
    have hdrop := dropWhile_isInLine_lineFeed input
    have htake : (input ++ ['\n']).takeWhile isInLine = input.takeWhile isInLine := takeWhile_lineFeed rfl input
    by_cases hhead : (input.dropWhile isInLine).head? = some '\r'
    · obtain ⟨tail, htail⟩ := List.head?_eq_some_iff.1 hhead
      rw [htail] at hdrop hline hsuffix
      rcases tail with _ | ⟨d, rest⟩
      · exact absurd rfl hline
      · by_cases hd : d = '\n'
        · subst hd
          unfold restOfLine
          rw [hdrop, htail, htake]
          exact .ok (.feed (hwhole.suffix hsuffix)) (.refl ..)
        · obtain ⟨_, hmismatch⟩ := restOfLine_of_return hd htail
          obtain ⟨_, hmismatch'⟩ := restOfLine_of_return hd hdrop
          rw [hmismatch, hmismatch']
          exact .mismatch
    · have hhead' : ((input ++ ['\n']).dropWhile isInLine).head? ≠ some '\r' := by
        rw [hdrop, List.head?_append]
        cases hdropped : (input.dropWhile isInLine).head? with
        | none => decide
        | some c => rwa [hdropped] at hhead
      rw [restOfLine_of_head hhead, restOfLine_of_head hhead', htake, hdrop]
      exact .ok (.feed (hwhole.suffix hsuffix)) (.refl ..)

/-- A line ending is the same in both runs, unless the line feed belongs to it. -/
theorem lineEnding_lineFeed {input : Text} (hwhole : IsWhole input) (hinput : input ≠ []) (hreturn : input ≠ ['\r']) :
    (lineEnding input).InStep true true (lineEnding (input ++ ['\n'])) := by
  unfold lineEnding
  split
  · next rest => exact .ok (.feed (hwhole.suffix (List.suffix_cons _ rest))) (.refl ..)
  · next rest => exact .ok (.feed (hwhole.suffix ⟨['\r', '\n'], rfl⟩)) (.refl ..)
  · next hfeed hboth =>
    obtain ⟨c, rest, rfl⟩ := List.exists_cons_of_ne_nil hinput
    rw [List.cons_append]
    split
    · next heq =>
      cases heq
      exact absurd rfl (hfeed rest)
    · next heq =>
      cases rest with
      | nil =>
        cases heq
        exact absurd rfl hreturn
      | cons d rest =>
        cases heq
        exact absurd rfl (hboth rest)
    · exact .mismatch

/-- Where a line ending is optional, the line feed may be one: nothing is left then in either run. -/
theorem optLineEnding_outcome {before : Bool} {input input' : Text} (hinput : Ahead before input input')
    (hreturn : input ≠ ['\r']) :
    (((fun _ => ()) <$> opt lineEnding) input).InStep false before (((fun _ => ()) <$> opt lineEnding) input') := by
  cases hinput with
  | done => exact .ok .done (.refl ..)
  | feed hwhole =>
    by_cases hnil : input = []
    · rw [hnil]
      exact .ok .done (.inr ⟨rfl, rfl⟩)
    · have hline := (lineEnding_lineFeed hwhole hnil hreturn).loosen
      rw [map_apply, map_apply, opt, opt]
      revert hline
      generalize lineEnding input = outcome
      generalize lineEnding (input ++ ['\n']) = outcome'
      rintro (⟨hrest, hpasses⟩ | _ | _)
      · exact .ok hrest hpasses
      · exact .ok (.feed hwhole) (.refl ..)
      · exact .failure

/-! Runs that have to hold a character -/

instance (rule : Rule) (property : Char → Bool) : Consuming (takeWhile1 rule property) where
  lt {input text rest} hok := by
    unfold takeWhile1 at hok
    split at hok
    · next c tail =>
      split at hok
      · cases hok
        exact Nat.lt_succ_of_le (List.dropWhile_suffix property).length_le
      · cases hok
    · cases hok

instance : Consuming spaces1 := by
  unfold spaces1
  infer_instance

theorem InStep.takeWhile1 {property : Char → Bool} (hproperty : property '\n' = false) (rule : Rule) :
    InStep keeps (takeWhile1 rule property) (takeWhile1 rule property) :=
  .of_append
    (fun {input _ _} _ hok => by
      unfold Parser.takeWhile1 at hok
      split at hok
      · next c tail =>
        split at hok
        · next hc =>
          cases hok
          rw [List.cons_append, Parser.takeWhile1, if_pos hc, takeWhile_lineFeed hproperty, dropWhile_lineFeed hproperty]
        · cases hok
      · cases hok)
    (fun {input _} _ hmismatch => by
      unfold Parser.takeWhile1 at hmismatch
      split at hmismatch
      · next c tail =>
        split at hmismatch
        · cases hmismatch
        · next hc => exact ⟨_, if_neg hc⟩
      · exact ⟨_, if_neg (Bool.eq_false_iff.1 hproperty)⟩)

/-- A run of characters may begin with the line feed or take it in, and then there is nothing left. -/
theorem takeWhile1_outcome (keeps : Bool) (rule : Rule) (property : Char → Bool) {before : Bool} {input input' : Text}
    (hinput : Ahead before input input') :
    (takeWhile1 rule property input).InStep keeps before (takeWhile1 rule property input') ∨
      ((takeWhile1 rule property input).Spent ∧ (takeWhile1 rule property input').Spent) := by
  cases hfeed : property '\n' with
  | false => exact .inl ((InStep.takeWhile1 hfeed rule).outcome hinput)
  | true =>
    cases hinput with
    | done => exact .inl .mismatch
    | feed hwhole =>
      cases input with
      | nil =>
        have hread : takeWhile1 rule property ['\n'] = .ok ['\n'] [] := if_pos hfeed
        exact .inr ⟨.inl ⟨_, rfl⟩, .inr ⟨_, hread⟩⟩
      | cons c rest =>
        simp only [List.cons_append, takeWhile1]
        split
        · by_cases hrest : rest.dropWhile property = []
          · rw [List.dropWhile_append, hrest, List.dropWhile_cons_of_pos hfeed]
            exact .inr ⟨.inr ⟨_, rfl⟩, .inr ⟨_, rfl⟩⟩
          · have hsuffix : rest.dropWhile property <:+ c :: rest :=
              (List.dropWhile_suffix _).trans (List.suffix_cons c rest)
            rw [takeWhile_lineFeed_of_ne hrest, dropWhile_lineFeed_of_ne hrest]
            exact .inl (.ok (.feed (hwhole.suffix hsuffix)) (.refl ..))
        · exact .inl .mismatch

/-- Text in front of a mark has to have the mark behind it. -/
theorem InStep.noneOf1_bind (stops : String) {f : Text → Parser β} (hf : ∀ text, InStep keeps (f text) (f text))
    (hend : ∀ text, Mismatches (f text) []) : InStep keeps (noneOf1 stops >>= f) (noneOf1 stops >>= f) where
  outcome hinput := by
    rw [bind_apply, bind_apply, noneOf1]
    rcases takeWhile1_outcome keeps .exclusion (fun c => !stops.toList.contains c) hinput with hsteps | ⟨hspent, hspent'⟩
    · exact InStep.andThen hsteps hf
    · obtain ⟨trace, hmismatch⟩ := hspent.andThen hend
      obtain ⟨trace', hmismatch'⟩ := hspent'.andThen hend
      rw [hmismatch, hmismatch']
      exact .mismatch

/-- White space that separates items has an item behind it. -/
theorem InStep.sepTail_spaces1 {p : Parser α} [hp : InStep keeps p p] (hend : Mismatches p []) :
    InStep keeps (sepTail spaces1 p) (sepTail spaces1 p) where
  outcome := InStep.sepTail_outcome fun hinput =>
    (takeWhile1_outcome keeps .whiteSpace isSpace hinput).imp id fun ⟨hspent, hspent'⟩ => ⟨hspent, hspent', hend, hend⟩

end Parser

end HeaderOutline
