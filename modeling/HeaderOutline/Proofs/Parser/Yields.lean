import HeaderOutline.Proofs.Grammar
import HeaderOutline.Proofs.Parser.Reading
/-!
# What parsers yield

`Yields source P p` says that everything that `p` reads at some place of a text has the property `P`. There is one rule for
each combinator. Sequences and repetition ask that the parsers stay inside the text. Inside a knot, the knot itself may
be taken to yield the same.
-/

namespace HeaderOutline

variable {α β γ : Type} {source : Text} {P : α → Prop} {Q : β → Prop}

namespace Parser

/-- What is read at some place of the source has the property. -/
structure Yields (source : Text) (P : α → Prop) (p : Parser α) : Prop where
  of_ok : ∀ {input a rest}, input <:+ source → p input = .ok a rest → P a

namespace Yields

variable {p : Parser α}

theorem mono {P' : α → Prop} (hp : Yields source P p) (hmono : ∀ a, P a → P' a) : Yields source P' p where
  of_ok hinput hread := hmono _ (hp.of_ok hinput hread)

theorem any : Yields source (fun _ => True) p where
  of_ok _ _ := True.intro

/-! ### Sequences -/

theorem pure {a : α} (ha : P a) : Yields source P (pure a) where
  of_ok _ hread := by
    cases hread
    exact ha

theorem mismatch (cause : Cause) : Yields source P (mismatch cause) where
  of_ok _ hread := by cases hread

theorem unrecognized (name : String) : Yields source P (unrecognized name) where
  of_ok _ hread := by cases hread

theorem bind [Bounded p] {f : α → Parser β} (hp : Yields source P p) (hf : ∀ a, P a → Yields source Q (f a)) :
    Yields source Q (p >>= f) where
  of_ok hinput hread := by
    obtain ⟨a, mid, hfirst, hread⟩ := bind_eq_ok.1 hread
    exact (hf a (hp.of_ok hinput hfirst)).of_ok ((Bounded.suffix hfirst).trans hinput) hread

/-- Nothing needs to be known of what is read first. -/
theorem behind [Bounded p] {f : α → Parser β} (hf : ∀ a, Yields source Q (f a)) : Yields source Q (p >>= f) :=
  any.bind fun a _ => hf a

/-- Nothing needs to be known of what is read last if it makes no difference. -/
theorem last {f : α → β} (hf : ∀ a, Q (f a)) : Yields source Q (p >>= fun a => Pure.pure (f a)) where
  of_ok _ hread := by
    obtain ⟨a, mid, -, hread⟩ := bind_eq_ok.1 hread
    cases hread
    exact hf a

theorem map {f : α → β} (hp : Yields source P p) (hf : ∀ a, P a → Q (f a)) : Yields source Q (f <$> p) where
  of_ok hinput hread := by
    obtain ⟨a, hitem, rfl⟩ := map_eq_ok.1 hread
    exact hf a (hp.of_ok hinput hitem)

theorem ite {property : Prop} [Decidable property] {q : Parser α} (hp : property → Yields source P p)
    (hq : ¬property → Yields source P q) : Yields source P (if property then p else q) := by
  split
  · next hproperty => exact hp hproperty
  · next hproperty => exact hq hproperty

theorem filter {property : α → Bool} (hp : Yields source P p) : Yields source P (p.filter property) where
  of_ok hinput hread := by
    obtain ⟨hitem, -⟩ := filter_eq_ok.1 hread
    exact hp.of_ok hinput hitem

/-! ### Choices -/

theorem opt (hp : Yields source P p) : Yields source (fun found => ∀ a ∈ found, P a) (opt p) where
  of_ok hinput hread := by
    rcases opt_eq_ok.1 hread with ⟨a, rfl, hitem⟩ | ⟨rfl, -, -⟩
    · rintro _ ⟨⟩
      exact hp.of_ok hinput hitem
    · simp

theorem firstOf {ps : List (Parser α)} (hps : ∀ p ∈ ps, Yields source P p) : Yields source P (firstOf ps) where
  of_ok hinput hread := by
    obtain ⟨p, hp, hitem⟩ := firstOf_eq_ok hread
    exact (hps p hp).of_ok hinput hitem

/-! ### Gaps -/

theorem afterGap (hp : Yields source P p) : Yields source P (afterGap p) := behind fun _ => hp

theorem beforeGap [Bounded p] (hp : Yields source P p) : Yields source P (beforeGap p) :=
  hp.bind fun _ ha => behind fun _ => .pure ha

theorem spaced [Bounded p] (hp : Yields source P p) : Yields source P (spaced p) := hp.beforeGap.afterGap

/-! ### Repetition and knots -/

/-- Inside the knot, the knot itself stays inside the text and yields what is to be shown. -/
theorem recurse {body : Parser α → Parser α} (hbounded : Bounded (recurse body))
    (hbody : ∀ q, Bounded q → Yields source P q → Yields source P (body q)) : Yields source P (recurse body) where
  of_ok {input a rest} hinput hread := by
    induction input using Parser.recurse.induct generalizing a rest with
    | _ input ih =>
      rw [Parser.recurse] at hread
      refine (hbody _ ⟨fun place => ?_⟩ ⟨fun {place b behind} hplace hinner => ?_⟩).of_ok hinput hread
      · split
        · exact hbounded.within place
        · exact True.intro
      · split at hinner
        · next hlt => exact ih place hlt hplace hinner
        · cases hinner

variable [Bounded p]

theorem many (hp : Yields source P p) : Yields source (fun items => ∀ a ∈ items, P a) (many p) where
  of_ok {input items rest} hinput hread := by
    fun_induction Parser.many p input generalizing items with
    | case1 input a mid hitem _ ih =>
      obtain ⟨others, hothers, rfl⟩ := Outcome.map_eq_ok.1 hread
      exact List.forall_mem_cons.2 ⟨hp.of_ok hinput hitem, ih ((Bounded.suffix hitem).trans hinput) hothers⟩
    | case2 => cases hread
    | case3 =>
      cases hread
      exact List.forall_mem_nil _
    | case4 => cases hread

theorem manyTill (hp : Yields source P p) {stop : Parser β} :
    Yields source (fun items => ∀ a ∈ items, P a) (manyTill p stop) where
  of_ok {input items rest} hinput hread := by
    fun_induction Parser.manyTill p stop input generalizing items with
    | case1 =>
      cases hread
      exact List.forall_mem_nil _
    | case3 input _ _ a mid hitem _ ih =>
      obtain ⟨others, hothers, rfl⟩ := Outcome.map_eq_ok.1 hread
      exact List.forall_mem_cons.2 ⟨hp.of_ok hinput hitem, ih ((Bounded.suffix hitem).trans hinput) hothers⟩
    | _ => cases hread

variable {separator : Parser β} [Bounded separator]

theorem sepTail (hp : Yields source P p) : Yields source (fun items => ∀ a ∈ items, P a) (sepTail separator p) where
  of_ok {input items rest} hinput hread := by
    fun_induction Parser.sepTail separator p input generalizing items with
    | case1 =>
      cases hread
      exact List.forall_mem_nil _
    | case3 =>
      cases hread
      exact List.forall_mem_nil _
    | case5 input _ mid hseparator a mid' hitem _ ih =>
      obtain ⟨others, hothers, rfl⟩ := Outcome.map_eq_ok.1 hread
      have hmid := (Bounded.suffix hseparator).trans hinput
      exact List.forall_mem_cons.2 ⟨hp.of_ok hmid hitem, ih ((Bounded.suffix hitem).trans hmid) hothers⟩
    | _ => cases hread

theorem sepBy1 (hp : Yields source P p) :
    Yields source (fun items => items ≠ [] ∧ ∀ a ∈ items, P a) (sepBy1 separator p) :=
  hp.bind fun _ hfirst => hp.sepTail.bind fun _ hothers =>
    .pure ⟨List.cons_ne_nil _ _, List.forall_mem_cons.2 ⟨hfirst, hothers⟩⟩

theorem sepBy (hp : Yields source P p) : Yields source (fun items => ∀ a ∈ items, P a) (sepBy separator p) where
  of_ok {input items rest} hinput hread := by
    unfold Parser.sepBy at hread
    cases hfirst : p input with
    | ok a mid =>
      rw [hfirst] at hread
      obtain ⟨others, hothers, rfl⟩ := Outcome.map_eq_ok.1 hread
      have hmid := (Bounded.suffix hfirst).trans hinput
      exact List.forall_mem_cons.2 ⟨hp.of_ok hinput hfirst, hp.sepTail.of_ok hmid hothers⟩
    | mismatch trace =>
      rw [hfirst] at hread
      cases hread
      exact List.forall_mem_nil _
    | failure trace =>
      rw [hfirst] at hread
      cases hread

end Yields

end Parser

end HeaderOutline
