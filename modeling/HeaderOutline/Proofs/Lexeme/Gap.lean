import HeaderOutline.Proofs.Comment.Leading
import HeaderOutline.Proofs.Parser.Related
/-!
# Texts that differ in a gap

Parsers that skip a gap before they look at the text do the same on two texts that go on alike behind their gaps.
-/

namespace HeaderOutline

open HeaderOutline.Parser

variable {α β : Type} {p : Parser α}

theorem gapEnd_gapEnd (input : Text) : gapEnd (gapEnd input) = gapEnd input := by
  fun_induction gapEnd input with
  | case1 => rw [gapEnd]
  | case2 c rest hc ih => exact ih
  | case3 c rest hc behind hcomment ih => exact ih
  | case4 c rest hc hcomment => exact gapEnd_of_no_comment (Bool.eq_false_iff.2 hc) hcomment

/-- The texts go on alike behind their gaps. -/
def SameBehindGap (input input' : Text) : Prop := gapEnd input = gapEnd input'

theorem SameBehindGap.refl (input : Text) : SameBehindGap input input := rfl

namespace Parser

/-- The parser does the same on texts that differ in the gap in front of them. -/
class IgnoresGap (p : Parser α) : Prop where
  relates : Relates SameBehindGap SameBehindGap p p

namespace IgnoresGap

theorem outcome (p : Parser α) [IgnoresGap p] {input input' : Text} (hgap : SameBehindGap input input') :
    (p input).Related SameBehindGap (p input') := relates.outcome hgap

instance (a : α) : IgnoresGap (pure a : Parser α) := ⟨.pure a⟩

instance (cause : Cause) : IgnoresGap (mismatch cause : Parser α) := ⟨.mismatch cause⟩

instance {f : α → Parser β} [hp : IgnoresGap p] [hf : ∀ a, IgnoresGap (f a)] : IgnoresGap (p >>= f) :=
  ⟨hp.relates.bind fun a => (hf a).relates⟩

instance {f : α → β} [hp : IgnoresGap p] : IgnoresGap (f <$> p) := ⟨hp.relates.map f⟩

instance {property : Prop} [Decidable property] {q : Parser α} [IgnoresGap p] [IgnoresGap q] :
    IgnoresGap (if property then p else q) := by
  split <;> infer_instance

/-- Behind the gap both texts are the same, so any parser may follow. -/
instance (p : Parser α) : IgnoresGap (afterGap p) where
  relates.outcome hgap := by
    rw [afterGap_apply, afterGap_apply, hgap]
    exact .refl .refl _

instance (p : Parser α) : IgnoresGap (spaced p) := inferInstanceAs (IgnoresGap (afterGap (beforeGap p)))

instance (priority := high) (p : Parser α) (f : α → Parser β) : IgnoresGap (spaced p >>= f) where
  relates.outcome hgap := by
    rw [bind_apply, bind_apply, spaced, afterGap_apply, afterGap_apply, hgap]
    exact .refl .refl _

instance [hp : IgnoresGap p] : IgnoresGap (opt p) := ⟨hp.relates.opt id⟩

instance : IgnoresGap (firstOf ([] : List (Parser α))) := ⟨.firstOf .nil⟩

instance {ps : List (Parser α)} [hp : IgnoresGap p] [hps : IgnoresGap (firstOf ps)] : IgnoresGap (firstOf (p :: ps)) where
  relates.outcome {input input'} hgap := by
    have hothers := outcome (firstOf ps) hgap
    cases ps with
    | nil => exact (Relates.firstOf (.cons hp.relates .nil)).outcome hgap
    | cons q ps =>
      rw [firstOf, firstOf]
      rcases hp.relates.cases hgap with ⟨_, _, _, hok, hok', hrest⟩ | ⟨_, _, hok, hok'⟩ | ⟨_, _, hok, hok'⟩ <;> rw [hok, hok']
      · exact .ok hrest
      · exact hothers
      · exact .failure

theorem many_outcome (p : Parser α) [hp : IgnoresGap p] [Consuming p] {input input' : Text} (hgap : SameBehindGap input input') :
    (many p input).Related SameBehindGap (many p input') := by
  rw [many, many]
  rcases hp.relates.cases hgap with ⟨_, rest, rest', hok, hok', hrest⟩ | ⟨_, _, hok, hok'⟩ | ⟨_, _, hok, hok'⟩ <;>
    rw [hok, hok'] <;> dsimp only
  · have hlt := Consuming.lt hok
    rw [if_pos hlt, if_pos (Consuming.lt hok')]
    exact (many_outcome p hrest).map _
  · exact .ok hgap
  · exact .failure
termination_by input.length

/-- What `p` reads is not in the gap, so that both runs make progress. -/
instance [IgnoresGap p] [Consuming p] : IgnoresGap (many p) := ⟨⟨many_outcome p⟩⟩

end IgnoresGap

end Parser

end HeaderOutline
