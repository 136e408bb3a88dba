import HeaderOutline.Parser.Basic
/-!
# Nesting

Blocks and template argument lists may be nested to a fixed depth. Every parser that opens a level takes
the number of levels that may still be opened, its *room*, and fails for good when there is none.
-/

namespace HeaderOutline

/-- Deepest nesting of blocks and template argument lists. -/
def nestingLimit : Nat := 64

/-- The failure of a construct for which no level is left. -/
def tooDeep {α : Type} : Parser α := Parser.unrecognized "shallower nesting"

/-- The levels that are open at a place. -/
structure Nesting where
  held : Nat
  held_le : held ≤ nestingLimit := by decide
  deriving DecidableEq, Repr

namespace Nesting

/-- No level is open. -/
def outermost : Nesting := { held := 0 }

/-- The levels that may still be opened. -/
def room (nesting : Nesting) : Nat := nestingLimit - nesting.held

/-- Opens one more level in front of the input, or fails there. -/
def enter (nesting : Nesting) : Parser Nesting := fun input =>
  if held_lt : nesting.held < nestingLimit then .ok ⟨nesting.held + 1, held_lt⟩ input else tooDeep input

/-- Closes the level opened last, if any is open. -/
def leave (nesting : Nesting) : Nesting :=
  ⟨nesting.held - 1, Nat.le_trans (Nat.sub_le _ _) nesting.held_le⟩

end Nesting

end HeaderOutline
