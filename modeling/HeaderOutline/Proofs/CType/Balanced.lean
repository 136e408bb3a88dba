import HeaderOutline.Function
import HeaderOutline.Proofs.CType.Written
import HeaderOutline.Proofs.Lexeme.Depth
/-!
# Skipping rendered types

Where a name is looked for rather than a type, a list in angle brackets is skipped as raw text. The brackets
of a rendered type match, and nothing in it begins a literal or a comment, so that exactly the list is skipped.
-/

namespace HeaderOutline

open HeaderOutline.Parser

variable {text rest : Text}

/-! ### Balanced text -/

/-- A character that the scan for angle brackets passes over. -/
def IsPassed (c : Char) : Prop := c ∉ ['<', '>', '\'', '"', '/']

instance (c : Char) : Decidable (IsPassed c) := inferInstanceAs (Decidable (c ∉ _))

inductive Balanced : Text → Prop
  | nil : Balanced []
  | char {c : Char} (hc : IsPassed c) : Balanced [c]
  | append {front back : Text} (hfront : Balanced front) (hback : Balanced back) : Balanced (front ++ back)
  | angles {text : Text} (htext : Balanced text) : Balanced ('<' :: text ++ ['>'])

theorem Balanced.of_forall (htext : ∀ c ∈ text, IsPassed c) : Balanced text := by
  induction text with
  | nil => exact .nil
  | cons c text ih =>
    have htail := ih fun d hd => htext d (List.mem_cons_of_mem c hd)
    exact .append (.char (htext c List.mem_cons_self)) htail

theorem blockFrom_passed {c : Char} (hc : IsPassed c) (depth : Int) (before rest : Text) :
    blockFrom (bracketByte '<') (bracketByte '>') depth .code before (c :: rest) =
      blockFrom (bracketByte '<') (bracketByte '>') depth .code (c :: before) rest := by
  simp only [IsPassed, List.mem_cons, List.not_mem_nil, or_false, not_or] at hc
  have hcode : c ∉ ['\'', '"', '/'] := by simp [hc]
  rw [blockFrom, Scan.Mode.step_code_of_ne hcode, countBrackets_char (by decide), if_neg hc.1, if_neg hc.2.1]

theorem blockFrom_opener (depth : Int) (before rest : Text) :
    blockFrom (bracketByte '<') (bracketByte '>') depth .code before ('<' :: rest) =
      blockFrom (bracketByte '<') (bracketByte '>') (depth + 1) .code ('<' :: before) rest := rfl

theorem blockFrom_closer {depth : Int} (hdepth : depth ≠ 1) (before rest : Text) :
    blockFrom (bracketByte '<') (bracketByte '>') depth .code before ('>' :: rest) =
      blockFrom (bracketByte '<') (bracketByte '>') (depth - 1) .code ('>' :: before) rest := by
  have hcount : countBrackets (bracketByte '<') (bracketByte '>') depth (String.utf8EncodeChar '>') =
      (depth - 1, false) := if_neg hdepth
  rw [blockFrom, hcount]
  rfl

/-- Balanced text in a block is passed over, and leaves the depth as it is. -/
theorem blockFrom_balanced (htext : Balanced text) {depth : Int} (hdepth : 1 ≤ depth) (before rest : Text) :
    blockFrom (bracketByte '<') (bracketByte '>') depth .code before (text ++ rest) =
      blockFrom (bracketByte '<') (bracketByte '>') depth .code (text.reverse ++ before) rest := by
  induction htext generalizing depth before rest with
  | nil => rfl
  | char hc => exact blockFrom_passed hc depth before rest
  | append hfront hback ihfront ihback =>
    rw [List.append_assoc, ihfront hdepth, ihback hdepth, List.reverse_append, List.append_assoc]
  | angles htext ih =>
    rw [List.cons_append, List.cons_append, blockFrom_opener, List.append_assoc, ih (by omega), List.singleton_append,
      blockFrom_closer (by omega), Int.add_sub_cancel]
    simp

theorem angleBrackets_append (htext : Balanced text) (rest : Text) :
    angleBrackets ('<' :: (text ++ '>' :: rest)) = .ok ('<' :: text ++ ['>']) rest := by
  have hcloser : blockFrom (bracketByte '<') (bracketByte '>') 1 .code (text.reverse ++ ['<']) ('>' :: rest) =
      some (('>' :: (text.reverse ++ ['<'])).reverse, rest) := rfl
  have hblock : blockFrom (bracketByte '<') (bracketByte '>') 0 .code [] ('<' :: (text ++ '>' :: rest)) =
      some ('<' :: text ++ ['>'], rest) := by
    rw [blockFrom_opener, blockFrom_balanced htext (by decide), Int.zero_add, hcloser]
    simp
  rw [angleBrackets, block, if_pos (by rfl), hblock]

namespace CType

theorem balanced_renderList {types : List CType} (htypes : ∀ type ∈ types, Balanced (render type)) :
    Balanced (renderList types) :=
  renderList_induction .nil .append (.of_forall (by decide)) htypes

theorem Argument.balanced {arg : CType} (harg : Argument arg) : Balanced (render arg) := by
  refine Argument.render_induction .nil .append (fun c hc => ?char) (fun args ih => ?angles) (fun params _ ih => ?params) harg
  case char =>
    have hnone : ∀ c ∈ ['<', '>', '\'', '"', '/'], ¬IsTypeChar c := by decide
    exact .char fun hmem => hnone c hmem hc
  case angles => exact .angles (balanced_renderList ih)
  case params =>
    have hopener : Balanced ['('] := .char (by decide)
    have hcloser : Balanced [')'] := .char (by decide)
    exact (hopener.append (balanced_renderList ih)).append hcloser

end CType

end HeaderOutline
