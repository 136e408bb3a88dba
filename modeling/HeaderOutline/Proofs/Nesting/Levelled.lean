import Mathlib.Tactic.Choose
import HeaderOutline.Proofs.Nesting.Program
import HeaderOutline.Proofs.Parser.Reading
/-!
# Parsers with levels are programs

The grammar is written for parsers that are told how many levels are left. `Levelled` says that such a parser is what a
program reads: there is one program for every number of levels up to a limit, so nothing but the levels that it opens
can make a difference between them. Every combinator of the grammar keeps this. Repetition is a knot, and a knot is a
program since it goes round on shorter inputs only.
-/

namespace HeaderOutline

open HeaderOutline.Parser

variable {α β : Type} {limit : Nat}

/-- The program reads what `p` reads where any number of levels up to the limit is left. -/
def LevelProgram.Realizes (program : LevelProgram α) (limit : Nat) (p : Nat → Parser α) : Prop :=
  ∀ room ≤ limit, program.reading room = p room

namespace Parser

/-- The text between an earlier place and this one. -/
def since (start : Text) : Parser Text := fun input => .ok (start.take (start.length - input.length)) input

/-- Mismatches for a reason that was found before. -/
def mismatched (trace : Trace) : Parser α := fun _ => .mismatch trace

/-- Up to the limit, the parser reads what a program reads. -/
class Levelled (limit : Nat) (p : Nat → Parser α) : Prop where
  realized : ∃ program : LevelProgram α, program.Realizes limit p

namespace Levelled

instance (priority := high) plain (p : Parser α) : Levelled limit fun _ => p where
  realized := ⟨.plain p, fun _ _ => rfl⟩

/-- Without a level to open any parser is a single one. -/
theorem zero (p : Nat → Parser α) : Levelled 0 p where
  realized := ⟨.plain (p 0), fun _ hroom => congrArg p (Nat.le_zero.1 hroom).symm⟩

/-- The parser opens a level, and with one level less it goes on inside. -/
theorem level {p : Nat → Parser α} (hzero : p 0 = tooDeep) (hinside : Levelled limit fun room => p (room + 1)) :
    Levelled (limit + 1) p where
  realized := by
    obtain ⟨program, hprogram⟩ := hinside.realized
    refine ⟨.level program, fun room hroom => ?_⟩
    cases room with
    | zero => exact hzero.symm
    | succ room => exact hprogram room (Nat.le_of_succ_le_succ hroom)

/-- On every input the parser does what some parser with levels does. -/
theorem ahead {p : Nat → Parser α} (hp : ∀ input, ∃ q : Nat → Parser α, Levelled limit q ∧ ∀ room, p room input = q room input) :
    Levelled limit p where
  realized := by
    choose q hq hsame using hp
    choose program hprogram using fun input => (hq input).realized
    refine ⟨.ahead program, fun room hroom => ?_⟩
    funext input
    rw [hsame]
    exact congrFun (hprogram input room hroom) input

/-! ### Sequences -/

theorem bind {p : Nat → Parser α} {f : α → Nat → Parser β} (hp : Levelled limit p) (hf : ∀ a, Levelled limit (f a)) :
    Levelled limit fun room => p room >>= fun a => f a room where
  realized := by
    obtain ⟨first, hfirst⟩ := hp.realized
    choose next hnext using fun a => (hf a).realized
    refine ⟨.bind first next, fun room hroom => ?_⟩
    rw [LevelProgram.reading, hfirst room hroom]
    exact congrArg (p room >>= ·) (funext fun a => hnext a room hroom)

instance {p : Nat → Parser α} {f : α → Nat → Parser β} [hp : Levelled limit p] [hf : ∀ a, Levelled limit (f a)] :
    Levelled limit fun room => p room >>= fun a => f a room := .bind hp hf

instance {p : Nat → Parser α} {f : α → β} [Levelled limit p] : Levelled limit fun room => f <$> p room := by
  have hbind : (fun room => f <$> p room) = fun room => p room >>= fun a => pure (f a) :=
    funext fun room => map_eq_pure_bind f (p room)
  rw [hbind]
  infer_instance

instance {property : Prop} [Decidable property] {p q : Nat → Parser α} [Levelled limit p] [Levelled limit q] :
    Levelled limit fun room => if property then p room else q room := by
  split <;> infer_instance

instance {p : Nat → Parser α} [Levelled limit p] : Levelled limit fun room => textOf (p room) := by
  refine .ahead fun input => ⟨fun room => p room >>= fun _ => since input, inferInstance, fun room => ?_⟩
  change _ = (p room >>= fun _ => since input) input
  rw [Parser.textOf, bind_apply]
  cases p room input <;> rfl

instance {p : Nat → Parser α} {property : α → Bool} [Levelled limit p] :
    Levelled limit fun room => (p room).filter property := by
  refine .ahead fun input => ⟨fun room => p room >>= fun a =>
    if property a then pure a else mismatched [⟨input, .rule .condition⟩], inferInstance, fun room => ?_⟩
  change _ = (p room >>= fun a => if property a then pure a else mismatched _) input
  rw [Parser.filter, bind_apply]
  cases p room input with
  | ok a rest =>
    change (if property a then Outcome.ok a rest else _) = (if property a then pure a else mismatched _ : Parser α) rest
    cases property a <;> rfl
  | mismatch trace => rfl
  | failure trace => rfl

/-! ### Choices -/

theorem attempt {p : Nat → Parser α} (hp : Levelled limit p) : Levelled limit fun room => attempt (p room) where
  realized := by
    obtain ⟨program, hprogram⟩ := hp.realized
    exact ⟨.attempt program, fun room hroom => congrArg Parser.attempt (hprogram room hroom)⟩

/-- What is done behind `p`, and what is done in its place where it mismatches. -/
theorem orElse {p : Nat → Parser α} {accept : α → Nat → Parser β} {instead : Trace → Nat → Parser β} (hp : Levelled limit p)
    (haccept : ∀ a, Levelled limit (accept a)) (hinstead : ∀ trace, Levelled limit (instead trace)) :
    Levelled limit fun room => Parser.attempt (p room) >>= fun tried => match tried with
      | .ok a => accept a room
      | .error trace => instead trace room := by
  refine hp.attempt.bind fun tried => ?_
  cases tried with
  | ok a => exact haccept a
  | error trace => exact hinstead trace

theorem opt_eq (p : Parser α) : opt p = Parser.attempt p >>= fun tried => match tried with
    | .ok a => pure (some a)
    | .error _ => pure none := by
  funext input
  rw [bind_apply, Parser.attempt, opt]
  cases p input <;> rfl

instance {p : Nat → Parser α} [hp : Levelled limit p] : Levelled limit fun room => opt (p room) := by
  simp only [opt_eq]
  exact hp.orElse (fun a => .plain (pure (some a))) fun _ => .plain (pure none)

theorem firstOf_cons (p q : Parser α) (ps : List (Parser α)) :
    firstOf (p :: q :: ps) = Parser.attempt p >>= fun tried => match tried with
      | .ok a => pure a
      | .error _ => firstOf (q :: ps) := by
  funext input
  rw [bind_apply, Parser.attempt, firstOf]
  cases p input <;> rfl

/-- Of two alternatives, the second is tried where the first one mismatches, and nowhere else. -/
instance {p q : Nat → Parser α} {ps : Nat → List (Parser α)} [hp : Levelled limit p]
    [hothers : Levelled limit fun room => firstOf (q room :: ps room)] :
    Levelled limit fun room => firstOf (p room :: q room :: ps room) := by
  simp only [firstOf_cons]
  exact hp.orElse (fun a => .plain (pure a)) fun _ => hothers

/-- Adds to the trace of a mismatch of `p` that the rule asked for it. -/
def blaming (rule : Rule) (p : Parser α) : Parser α := fun input =>
  match p input with
  | .mismatch trace => .mismatch (trace ++ [⟨input, .rule rule⟩])
  | outcome => outcome

instance {rule : Rule} {p : Nat → Parser α} [hp : Levelled limit p] : Levelled limit fun room => blaming rule (p room) := by
  refine .ahead fun input => ⟨_, hp.orElse (fun a => .plain (pure a)) fun trace =>
    .plain (mismatched (trace ++ [⟨input, .rule rule⟩])), fun room => ?_⟩
  rw [blaming, bind_apply, Parser.attempt]
  cases p room input <;> rfl

instance {p : Nat → Parser α} [Levelled limit p] : Levelled limit fun room => firstOf [p room] :=
  inferInstanceAs (Levelled limit fun room => blaming .choice (p room))

/-! ### Repetition and recursion -/

/-- A knot is a program if its body is, whatever program stands for the knot inside. -/
theorem recurse {body : Nat → Parser α → Parser α}
    (hbody : ∀ p : Nat → Parser α, Levelled limit p → Levelled limit fun room => body room (p room)) :
    Levelled limit fun room => recurse (body room) := by
  -- Inside, the knot is there on shorter inputs only, so the program is put together along their length.
  have hshorter : ∀ length, Levelled limit fun room rest =>
      if rest.length < length then Parser.recurse (body room) rest else .mismatch [] := by
    intro length
    induction length using Nat.strong_induction_on with
    | _ length ih =>
      refine .ahead fun input => ?_
      by_cases hlt : input.length < length
      · refine ⟨_, hbody _ (ih input.length hlt), fun room => ?_⟩
        rw [if_pos hlt, recurse_apply]
      · exact ⟨_, .plain (mismatched []), fun room => if_neg hlt⟩
  refine .ahead fun input => ⟨_, hbody _ (hshorter input.length), fun room => ?_⟩
  rw [recurse_apply]

/-- The items behind one that was read from the start, if it made progress. -/
def continued (rule : Rule) (start : Text) (more : Parser (List α)) (a : α) : Parser (List α) := fun rest =>
  if rest.length < start.length then (more rest).map (a :: ·) else .mismatch [⟨start, .rule rule⟩]

/-- One round of a loop that goes on with `more`. -/
def round (rule : Rule) (item : Parser (Option α)) (more : Parser (List α)) : Parser (List α) := fun start =>
  (item start).andThen fun found => match found with
    | none => pure []
    | some a => continued rule start more a

/-- Items up to a place where there is none. An item that consumes nothing is a mismatch. -/
def loop (rule : Rule) (item : Parser (Option α)) : Parser (List α) := Parser.recurse (round rule item)

/-- Two rounds come to the same if what goes on does so behind every item that made progress. -/
theorem round_congr {rule : Rule} {item : Parser (Option α)} {more more' : Parser (List α)} {start : Text}
    (hmore : ∀ rest, rest.length < start.length → more rest = more' rest) :
    round rule item more start = round rule item more' start := by
  refine congrArg (Outcome.andThen · (item start)) (funext fun found => ?_)
  cases found with
  | none => rfl
  | some a =>
    funext rest
    exact ite_congr rfl (fun hlt => congrArg _ (hmore rest hlt)) fun _ => rfl

theorem loop_apply (rule : Rule) (item : Parser (Option α)) (input : Text) :
    loop rule item input = round rule item (loop rule item) input :=
  (recurse_apply (round rule item) input).trans (round_congr fun _ hlt => if_pos hlt)

/-- A repetition that goes round in the same way is the loop. -/
theorem eq_loop {rule : Rule} {item : Parser (Option α)} {p : Parser (List α)}
    (hp : ∀ input, p input = round rule item p input) : p = loop rule item := by
  funext input
  induction hlength : input.length using Nat.strong_induction_on generalizing input with
  | _ length ih =>
    rw [hp, loop_apply]
    exact round_congr fun rest hlt => ih rest.length (hlength ▸ hlt) rest rfl

instance {rule : Rule} {start : Text} {more : Nat → Parser (List α)} {a : α} [Levelled limit more] :
    Levelled limit fun room => continued rule start (more room) a := by
  refine .ahead fun rest => ?_
  by_cases hlt : rest.length < start.length
  · exact ⟨fun room => (a :: ·) <$> more room, inferInstance, fun room => (if_pos hlt).trans (map_apply _ _ rest).symm⟩
  · exact ⟨_, .plain (mismatched [⟨start, .rule rule⟩]), fun room => if_neg hlt⟩

instance {rule : Rule} {item : Nat → Parser (Option α)} [hitem : Levelled limit item] :
    Levelled limit fun room => loop rule (item room) := by
  refine .recurse fun more hmore => .ahead fun start => ⟨_, hitem.bind fun found => ?_, fun room => rfl⟩
  cases found with
  | none => exact .plain (pure [])
  | some a => exact inferInstanceAs (Levelled limit fun room => continued rule start (more room) a)

theorem many_eq (p : Parser α) : many p = loop .repetition (opt p) := by
  refine eq_loop fun input => ?_
  rw [many, round, opt]
  cases p input <;> rfl

instance {p : Nat → Parser α} [Levelled limit p] : Levelled limit fun room => many (p room) := by
  simp only [many_eq]
  infer_instance

/-- An item, where `stop` does not match. -/
def itemBefore (stop : Parser β) (p : Parser α) : Parser (Option α) := Parser.attempt stop >>= fun tried => match tried with
  | .ok _ => pure none
  | .error _ => some <$> blaming .untilStop p

theorem manyTill_eq (p : Parser α) (stop : Parser β) : manyTill p stop = loop .repetition (itemBefore stop p) := by
  refine eq_loop fun input => ?_
  rw [manyTill, round, itemBefore, bind_apply, Parser.attempt]
  cases stop input with
  | ok b rest => rfl
  | failure trace => rfl
  | mismatch trace =>
    change _ = Outcome.andThen _ ((some <$> blaming .untilStop p) input)
    rw [map_apply, blaming]
    cases p input <;> rfl

instance {p : Nat → Parser α} {stop : Parser β} [Levelled limit p] : Levelled limit fun room => manyTill (p room) stop := by
  have hstop : Levelled limit fun _ => stop := inferInstance
  have hitem : Levelled limit fun room => itemBefore stop (p room) :=
    hstop.orElse (fun _ => .plain (pure none)) fun _ => inferInstanceAs (Levelled limit fun room => some <$> blaming _ (p room))
  simp only [manyTill_eq]
  infer_instance

theorem sepTail_eq (separator : Parser β) (p : Parser α) :
    sepTail separator p = loop .list (opt (separator >>= fun _ => p)) := by
  refine eq_loop fun input => ?_
  rw [sepTail, round, opt, bind_apply]
  cases separator input with
  | mismatch trace => rfl
  | failure trace => rfl
  | ok b mid =>
    dsimp only [Outcome.andThen]
    cases p mid <;> rfl

instance {separator : Parser β} {p : Nat → Parser α} [Levelled limit p] :
    Levelled limit fun room => sepTail separator (p room) := by
  simp only [sepTail_eq]
  infer_instance

instance {separator : Parser β} {p : Nat → Parser α} [Levelled limit p] :
    Levelled limit fun room => sepBy1 separator (p room) := by
  unfold sepBy1
  infer_instance

theorem sepBy_eq (separator : Parser β) (p : Parser α) : sepBy separator p = Parser.attempt p >>= fun tried => match tried with
    | .ok a => (a :: ·) <$> sepTail separator p
    | .error _ => pure [] := by
  funext input
  rw [bind_apply, Parser.attempt, sepBy]
  cases p input with
  | ok a rest => exact (map_apply _ _ rest).symm
  | mismatch trace => rfl
  | failure trace => rfl

instance {separator : Parser β} {p : Nat → Parser α} [hp : Levelled limit p] :
    Levelled limit fun room => sepBy separator (p room) := by
  simp only [sepBy_eq]
  exact hp.orElse (fun a => inferInstanceAs (Levelled limit fun room => (a :: ·) <$> sepTail separator (p room)))
    fun _ => .plain (pure [])

end Levelled

end Parser

end HeaderOutline
