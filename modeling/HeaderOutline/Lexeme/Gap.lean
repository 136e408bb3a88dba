import HeaderOutline.Parser.Primitive
/-!
# Gaps

White space and comments between tokens. A gap takes in everything up to the first character that begins
neither: what is no complete comment ends it.
-/

namespace HeaderOutline

open HeaderOutline.Parser

/-- The text behind the complete comment at the front of the input. A line comment leaves its line ending. -/
def behindComment? : Text → Option Text
  | '/' :: '/' :: line =>
    match restOfLine line with
    | .ok _ rest => some rest
    | _ => none
  | '/' :: '*' :: content => (Text.splitBefore? "*/".toList content).map fun parts => parts.2.drop 2
  | _ => none

theorem length_restOfLine_le {line text rest : Text} (hline : restOfLine line = .ok text rest) :
    rest.length ≤ line.length := by
  have hdrop : ∀ p : Char → Bool, (line.dropWhile p).length ≤ line.length := fun p =>
    (List.dropWhile_suffix p).length_le
  unfold restOfLine at hline
  split at hline
  · next heq =>
    cases hline
    exact heq ▸ hdrop _
  · cases hline
  · cases hline
    exact hdrop _

theorem length_behindComment?_lt {input rest : Text} (hcomment : behindComment? input = some rest) :
    rest.length < input.length := by
  unfold behindComment? at hcomment
  split at hcomment
  · split at hcomment
    · next hline =>
      cases hcomment
      have := length_restOfLine_le hline
      simp only [List.length_cons]
      omega
    · cases hcomment
  · next content =>
    obtain ⟨⟨front, back⟩, hsplit, hback⟩ := Option.map_eq_some_iff.1 hcomment
    have hlength := congrArg List.length (Text.splitBefore?_append hsplit)
    subst hback
    simp only [List.length_append, List.length_cons, List.length_drop] at hlength ⊢
    omega
  · cases hcomment

/-- What is left behind all white space and comments from here on. -/
def gapEnd : Text → Text
  | [] => []
  | c :: rest =>
    if isSpace c then gapEnd rest
    else
      match _hcomment : behindComment? (c :: rest) with
      | some behind => gapEnd behind
      | none => c :: rest
termination_by input => input.length
decreasing_by
  · simp
  · exact length_behindComment?_lt _hcomment

def skipGap : Parser Unit := fun input => .ok () (gapEnd input)

/-- White space and comments, possibly none. -/
def gap : Parser Text := textOf skipGap

/-- Reads `p` behind a gap. -/
def afterGap {α : Type} (p : Parser α) : Parser α := do
  let _ ← skipGap
  p

/-- Reads `p` and the gap behind it. -/
def beforeGap {α : Type} (p : Parser α) : Parser α := do
  let a ← p
  let _ ← skipGap
  pure a

/-- Reads `p` between two gaps. -/
def spaced {α : Type} (p : Parser α) : Parser α := afterGap (beforeGap p)

end HeaderOutline
