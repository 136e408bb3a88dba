import HeaderOutline.Parser.Primitive
import HeaderOutline.Parser.Repeat
/-!
# Parsers stay inside their input

Whatever a parser does, it should leave a suffix of its input, and if it fails for good it should say so at
a place inside its input and name a construct of the language. `BoundedBy` says both of one parser, with the
list of constructs that it may name; a parser bounded by the empty list never fails. It is a class, so that
for a parser that is put together from bounded ones the proof is found from its definition: this module
gives one instance for each combinator, and a parser that ties a recursive knot uses `BoundedBy.recurse`.

Mismatches are left out on purpose. They may carry places in derived texts, such as the body of a
definition, and are discarded before they reach the top. Only where a mismatch is made final does its trace
count; `Placed` is what has to hold of it there.
-/

namespace HeaderOutline

/-- The construct that a mark names, if it names one. -/
def Mark.construct? (mark : Mark) : Option Text :=
  match mark.cause with
  | .context name => some name
  | _ => none

/-- What can be missing where a text is given up for good. -/
def committedConstructs : List Text :=
  ["declaration".toList, "class member".toList, "shallower nesting".toList, "enumerator".toList,
   "`;` after class definition".toList, "`;` after enum".toList]

namespace Trace

variable {C : List Text}

/-- The innermost construct that the trace names. -/
def construct? (trace : Trace) : Option Text := trace.findSome? Mark.construct?

/-- The innermost place lies in the input, and the innermost construct is one of `C`. -/
structure Reported (C : List Text) (input : Text) (trace : Trace) : Prop where
  placed : ∃ mark more, trace = mark :: more ∧ mark.place <:+ input
  named : ∃ name ∈ C, construct? trace = some name

theorem Reported.mono {input whole : Text} {trace : Trace} (htrace : Reported C input trace)
    (hsuffix : input <:+ whole) : Reported C whole trace where
  placed := by
    obtain ⟨mark, more, heq, hplace⟩ := htrace.placed
    exact ⟨mark, more, heq, hplace.trans hsuffix⟩
  named := htrace.named

theorem Reported.append {input : Text} {trace : Trace} (htrace : Reported C input trace) (outer : Trace) :
    Reported C input (trace ++ outer) where
  placed := by
    obtain ⟨mark, more, rfl, hplace⟩ := htrace.placed
    exact ⟨mark, more ++ outer, rfl, hplace⟩
  named := by
    obtain ⟨name, hname, hconstruct⟩ := htrace.named
    refine ⟨name, hname, ?_⟩
    rw [construct?, List.findSome?_append, ← construct?, hconstruct, Option.some_or]

theorem reported_singleton {input : Text} {name : String} (hname : name.toList ∈ C) :
    Reported C input [⟨input, .context name.toList⟩] where
  placed := ⟨_, [], rfl, List.suffix_refl input⟩
  named := ⟨name.toList, hname, rfl⟩

/-- The innermost place lies in the input, and no construct is named yet. -/
structure Placed (input : Text) (trace : Trace) : Prop where
  placed : ∃ mark more, trace = mark :: more ∧ mark.place <:+ input
  unnamed : construct? trace = none

theorem Placed.mono {input whole : Text} {trace : Trace} (htrace : Placed input trace)
    (hsuffix : input <:+ whole) : Placed whole trace where
  placed := by
    obtain ⟨mark, more, heq, hplace⟩ := htrace.placed
    exact ⟨mark, more, heq, hplace.trans hsuffix⟩
  unnamed := htrace.unnamed

/-- A committed parser adds the construct that it expected. -/
theorem Placed.reported {input : Text} {trace : Trace} {name : String} (htrace : Placed input trace)
    (hname : name.toList ∈ C) :
    Reported C input (trace ++ [⟨input, .context name.toList⟩]) where
  placed := by
    obtain ⟨mark, more, rfl, hplace⟩ := htrace.placed
    exact ⟨mark, more ++ _, rfl, hplace⟩
  named := by
    refine ⟨name.toList, hname, ?_⟩
    rw [construct?, List.findSome?_append, ← construct?, htrace.unnamed, Option.none_or]
    rfl

end Trace

namespace Outcome

variable {α β : Type} {C : List Text}

/-- A success leaves a suffix of the input, and a failure is reported in it. -/
def Within (C : List Text) (input : Text) : Outcome α → Prop
  | .ok _ rest => rest <:+ input
  | .mismatch _ => True
  | .failure trace => trace.Reported C input

theorem Within.mono {input whole : Text} {outcome : Outcome α} (hwithin : outcome.Within C input)
    (hsuffix : input <:+ whole) : outcome.Within C whole := by
  cases outcome with
  | ok a rest => exact List.IsSuffix.trans hwithin hsuffix
  | mismatch trace => trivial
  | failure trace => exact Trace.Reported.mono hwithin hsuffix

theorem Within.map {input : Text} {outcome : Outcome α} (hwithin : outcome.Within C input) (f : α → β) :
    (outcome.map f).Within C input := by
  cases outcome <;> exact hwithin

end Outcome

namespace Parser

variable {α β : Type} {C : List Text}

/-- On every input the outcome stays inside the input. -/
class BoundedBy (C : List Text) (p : Parser α) : Prop where
  within : ∀ input, (p input).Within C input

/-- Bounded by all constructs that anything commits to. -/
abbrev Bounded (p : Parser α) : Prop := BoundedBy committedConstructs p

theorem BoundedBy.suffix (C : List Text) {p : Parser α} [BoundedBy C p] {input rest : Text} {a : α}
    (hp : p input = .ok a rest) : rest <:+ input := by
  have hwithin := BoundedBy.within (C := C) (p := p) input
  rwa [hp] at hwithin

theorem Bounded.suffix {p : Parser α} [Bounded p] {input rest : Text} {a : α} (hp : p input = .ok a rest) :
    rest <:+ input := BoundedBy.suffix committedConstructs hp

theorem BoundedBy.reported {p : Parser α} [BoundedBy C p] {input : Text} {trace : Trace}
    (hp : p input = .failure trace) : trace.Reported C input := by
  have hwithin := BoundedBy.within (C := C) (p := p) input
  rwa [hp] at hwithin

/-- Without a construct to name there is no failure. -/
theorem BoundedBy.ne_failure {p : Parser α} [BoundedBy [] p] (input : Text) (trace : Trace) :
    p input ≠ .failure trace := by
  intro hp
  obtain ⟨name, hname, -⟩ := (BoundedBy.reported (C := []) hp).named
  cases hname

/-! ### Combinators -/

instance (a : α) : BoundedBy C (pure a : Parser α) where
  within input := List.suffix_refl input

theorem BoundedBy.bind {p : Parser α} {f : α → Parser β} (hp : BoundedBy C p) (hf : ∀ a, BoundedBy C (f a)) :
    BoundedBy C (p >>= f) where
  within input := by
    rw [bind_apply]
    cases heq : p input with
    | ok a rest => exact ((hf a).within rest).mono (BoundedBy.suffix C heq)
    | mismatch trace => trivial
    | failure trace => exact BoundedBy.reported heq

instance {p : Parser α} {f : α → Parser β} [hp : BoundedBy C p] [hf : ∀ a, BoundedBy C (f a)] :
    BoundedBy C (p >>= f) := .bind hp hf

instance {p : Parser α} {f : α → β} [BoundedBy C p] : BoundedBy C (f <$> p) where
  within input := by
    rw [map_apply]
    exact (BoundedBy.within (C := C) input).map f

instance {property : Prop} [Decidable property] {p q : Parser α} [BoundedBy C p] [BoundedBy C q] :
    BoundedBy C (if property then p else q) := by
  split <;> infer_instance

instance (cause : Cause) : BoundedBy C (mismatch cause : Parser α) where
  within _ := trivial

theorem BoundedBy.unrecognized {name : String} (hname : name.toList ∈ C) :
    BoundedBy C (unrecognized name : Parser α) where
  within _ := Trace.reported_singleton hname

instance {p : Parser α} [BoundedBy C p] : BoundedBy C (textOf p) where
  within input := by
    have hwithin := BoundedBy.within (C := C) (p := p) input
    unfold textOf
    cases hp : p input <;> rw [hp] at hwithin <;> exact hwithin

instance {p : Parser α} [BoundedBy C p] : BoundedBy C (lookahead p) where
  within input := by
    have hwithin := BoundedBy.within (C := C) (p := p) input
    unfold lookahead
    cases hp : p input with
    | ok a rest => exact List.suffix_refl input
    | mismatch trace => trivial
    | failure trace => rwa [hp] at hwithin

instance {p : Parser α} [BoundedBy C p] : BoundedBy C (notFollowedBy p) where
  within input := by
    have hwithin := BoundedBy.within (C := C) (p := p) input
    unfold notFollowedBy
    cases hp : p input with
    | ok a rest => trivial
    | mismatch trace => exact List.suffix_refl input
    | failure trace => rwa [hp] at hwithin

instance {p : Parser α} {property : α → Bool} [BoundedBy C p] : BoundedBy C (p.filter property) where
  within input := by
    have hwithin := BoundedBy.within (C := C) (p := p) input
    unfold filter
    cases hp : p input with
    | ok a rest =>
      rw [hp] at hwithin
      dsimp only
      split
      · exact hwithin
      · trivial
    | mismatch trace => trivial
    | failure trace => rwa [hp] at hwithin

instance {p : Parser α} {convert : α → Option β} [BoundedBy C p] : BoundedBy C (p.filterMap convert) where
  within input := by
    have hwithin := BoundedBy.within (C := C) (p := p) input
    unfold filterMap
    cases hp : p input with
    | ok a rest =>
      rw [hp] at hwithin
      dsimp only
      split
      · exact hwithin
      · trivial
    | mismatch trace => trivial
    | failure trace => rwa [hp] at hwithin

instance {p : Parser α} [BoundedBy C p] : BoundedBy C (opt p) where
  within input := by
    have hwithin := BoundedBy.within (C := C) (p := p) input
    unfold opt
    cases hp : p input with
    | ok a rest => rwa [hp] at hwithin
    | mismatch trace => exact List.suffix_refl input
    | failure trace => rwa [hp] at hwithin

instance : BoundedBy C (firstOf [] : Parser α) where
  within _ := trivial

instance {p : Parser α} {ps : List (Parser α)} [BoundedBy C p] [BoundedBy C (firstOf ps)] :
    BoundedBy C (firstOf (p :: ps)) where
  within input := by
    have hwithin := BoundedBy.within (C := C) (p := p) input
    cases ps with
    | nil =>
      unfold firstOf
      cases hp : p input with
      | ok a rest => rwa [hp] at hwithin
      | mismatch trace => trivial
      | failure trace => rwa [hp] at hwithin
    | cons q qs =>
      unfold firstOf
      cases hp : p input with
      | ok a rest => rwa [hp] at hwithin
      | mismatch trace => exact BoundedBy.within (C := C) (p := firstOf (q :: qs)) input
      | failure trace => rwa [hp] at hwithin

/-! ### Repetition -/

instance {p : Parser α} [BoundedBy C p] : BoundedBy C (many p) where
  within input := by
    fun_induction many p input with
    | case1 input a rest hp _ ih => exact (ih.map _).mono (BoundedBy.suffix C hp)
    | case2 => trivial
    | case3 input => exact List.suffix_refl input
    | case4 input trace hp => exact BoundedBy.reported hp

instance {p : Parser α} [BoundedBy C p] : BoundedBy C (many1 p) where
  within input := by
    unfold many1
    cases hp : p input with
    | ok a rest => exact ((BoundedBy.within (C := C) (p := many p) rest).map _).mono (BoundedBy.suffix C hp)
    | mismatch trace => trivial
    | failure trace => exact BoundedBy.reported hp

instance {p : Parser α} {stop : Parser β} [BoundedBy C p] [BoundedBy C stop] : BoundedBy C (manyTill p stop) where
  within input := by
    fun_induction manyTill p stop input with
    | case1 input b rest hstop => exact BoundedBy.suffix C hstop
    | case2 input trace hstop => exact BoundedBy.reported hstop
    | case3 input _ _ a rest hp _ ih => exact (ih.map _).mono (BoundedBy.suffix C hp)
    | case4 => trivial
    | case5 => trivial
    | case6 input _ _ trace hp => exact BoundedBy.reported hp

instance {separator : Parser β} {p : Parser α} [BoundedBy C separator] [BoundedBy C p] :
    BoundedBy C (sepTail separator p) where
  within input := by
    fun_induction sepTail separator p input with
    | case1 input => exact List.suffix_refl input
    | case2 input trace hseparator => exact BoundedBy.reported hseparator
    | case3 input => exact List.suffix_refl input
    | case4 input _ behind hseparator trace hp => exact (BoundedBy.reported hp).mono (BoundedBy.suffix C hseparator)
    | case5 input _ behind hseparator a rest hp _ ih =>
      exact (ih.map _).mono ((BoundedBy.suffix C hp).trans (BoundedBy.suffix C hseparator))
    | case6 => trivial

instance {separator : Parser β} {p : Parser α} [BoundedBy C separator] [BoundedBy C p] :
    BoundedBy C (sepBy1 separator p) := by
  unfold sepBy1
  infer_instance

instance {separator : Parser β} {p : Parser α} [BoundedBy C separator] [BoundedBy C p] :
    BoundedBy C (sepBy separator p) where
  within input := by
    unfold sepBy
    cases hp : p input with
    | ok a rest => exact ((BoundedBy.within (C := C) (p := sepTail separator p) rest).map _).mono (BoundedBy.suffix C hp)
    | mismatch trace => exact List.suffix_refl input
    | failure trace => exact BoundedBy.reported hp

/-- What is available inside the knot is the knot itself on shorter inputs, and a mismatch elsewhere. -/
theorem BoundedBy.recurse {body : Parser α → Parser α} (hbody : ∀ q, BoundedBy C q → BoundedBy C (body q)) :
    BoundedBy C (recurse body) where
  within input := by
    induction input using recurse.induct with
    | _ input ih =>
      rw [Parser.recurse]
      refine (hbody _ ⟨fun rest => ?_⟩).within input
      split
      · next hlt => exact ih rest hlt
      · trivial

/-! ### Primitive parsers -/

instance (c : Char) : BoundedBy C (char c) where
  within
    | [] => trivial
    | d :: rest => by
      simp only [char]
      split
      · exact List.suffix_cons d rest
      · trivial

instance (property : Char → Bool) : BoundedBy C (satisfy property) where
  within
    | [] => trivial
    | c :: rest => by
      simp only [satisfy]
      split
      · exact List.suffix_cons c rest
      · trivial

instance (chars : Text) : BoundedBy C (oneOf chars) where
  within
    | [] => trivial
    | c :: rest => by
      simp only [oneOf]
      split
      · exact List.suffix_cons c rest
      · trivial

instance (word : String) : BoundedBy C (literal word) where
  within input := by
    unfold literal
    split
    · next rest hafter => exact ⟨word.toList, (Text.after?_eq_some_iff.1 hafter).symm⟩
    · trivial

instance (property : Char → Bool) : BoundedBy C (takeWhile property) where
  within _ := List.dropWhile_suffix property

instance (rule : Rule) (property : Char → Bool) : BoundedBy C (takeWhile1 rule property) where
  within
    | [] => trivial
    | c :: rest => by
      simp only [takeWhile1]
      split
      · exact (List.dropWhile_suffix property).trans (List.suffix_cons c rest)
      · trivial

instance (mark : String) : BoundedBy C (takeUntil mark) where
  within input := by
    unfold takeUntil
    split
    · next front back hsplit => exact ⟨front, Text.splitBefore?_append hsplit⟩
    · trivial

instance (stops : String) : BoundedBy C (noneOf1 stops) := by
  unfold noneOf1
  infer_instance

instance : BoundedBy C eof where
  within
    | [] => List.suffix_refl []
    | _ :: _ => trivial

instance : BoundedBy C spaces0 := by
  unfold spaces0
  infer_instance

instance : BoundedBy C spaces1 := by
  unfold spaces1
  infer_instance

instance : BoundedBy C blanks0 := by
  unfold blanks0
  infer_instance

instance : BoundedBy C lineEnding where
  within input := by
    unfold lineEnding
    split
    · exact List.suffix_cons _ _
    · next rest => exact ⟨['\r', '\n'], rfl⟩
    · trivial

instance : BoundedBy C restOfLine where
  within input := by
    have hsuffix := List.dropWhile_suffix isInLine (l := input)
    unfold restOfLine
    split
    · next rest heq => exact heq ▸ hsuffix
    · trivial
    · exact hsuffix

end Parser

end HeaderOutline
