import HeaderOutline.Parser.Basic
/-!
# Repetition and recursion

Repetition goes on while the item matches, and stops with a mismatch if an item consumes nothing, so it
ends on every input. `recurse` ties a recursive knot in the same way: the inner parser is available on
shorter inputs only.
-/

namespace HeaderOutline.Parser

variable {α β : Type}

/-- As many items as match. -/
def many (p : Parser α) : Parser (List α) := fun input =>
  match p input with
  | .ok a rest =>
    if rest.length < input.length then (many p rest).map (a :: ·)
    else .mismatch [⟨input, .rule .repetition⟩]
  | .mismatch _ => .ok [] input
  | .failure trace => .failure trace
termination_by input => input.length

/-- As many items as match, and at least one. -/
def many1 (p : Parser α) : Parser (List α) := fun input =>
  match p input with
  | .ok a rest => (many p rest).map (a :: ·)
  | .mismatch trace => .mismatch (trace ++ [⟨input, .rule .oneOrMore⟩])
  | .failure trace => .failure trace

/-- Items until `stop` matches. At each place `stop` is tried first. -/
def manyTill (p : Parser α) (stop : Parser β) : Parser (List α) := fun input =>
  match stop input with
  | .ok _ rest => .ok [] rest
  | .failure trace => .failure trace
  | .mismatch _ =>
    match p input with
    | .ok a rest =>
      if rest.length < input.length then (manyTill p stop rest).map (a :: ·)
      else .mismatch [⟨input, .rule .repetition⟩]
    | .mismatch trace => .mismatch (trace ++ [⟨input, .rule .untilStop⟩])
    | .failure trace => .failure trace
termination_by input => input.length

/-- Further items, each behind a separator. A separator with no item behind it is not consumed. -/
def sepTail (separator : Parser β) (p : Parser α) : Parser (List α) := fun input =>
  match separator input with
  | .mismatch _ => .ok [] input
  | .failure trace => .failure trace
  | .ok _ afterSeparator =>
    match p afterSeparator with
    | .mismatch _ => .ok [] input
    | .failure trace => .failure trace
    | .ok a rest =>
      if rest.length < input.length then (sepTail separator p rest).map (a :: ·)
      else .mismatch [⟨input, .rule .list⟩]
termination_by input => input.length

/-- Items with a separator between neighbours, at least one. -/
def sepBy1 (separator : Parser β) (p : Parser α) : Parser (List α) := do
  let first ← p
  let others ← sepTail separator p
  pure (first :: others)

/-- Items with a separator between neighbours, possibly none. -/
def sepBy (separator : Parser β) (p : Parser α) : Parser (List α) := fun input =>
  match p input with
  | .mismatch _ => .ok [] input
  | .failure trace => .failure trace
  | .ok a rest => (sepTail separator p rest).map (a :: ·)

/-- The parser that `body` makes of itself. Inside `body` it mismatches on inputs that are not shorter. -/
def recurse (body : Parser α → Parser α) : Parser α := fun input =>
  body (fun rest => if rest.length < input.length then recurse body rest else .mismatch []) input
termination_by input => input.length

end HeaderOutline.Parser
