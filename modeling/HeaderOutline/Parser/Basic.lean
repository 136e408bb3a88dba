import HeaderOutline.Text.Basic
/-!
# Parsers

A parser reads the front of a text. It succeeds with a value and the text that is left, or it stops in
one of two ways: a *mismatch* lets the caller try another reading, a *failure* is final and passes
through every combinator. Both carry a trace, innermost place first.
-/

namespace HeaderOutline

/-- The reading rules that a mismatch can name. -/
inductive Rule where
  /-- A fixed text. -/
  | literal
  /-- Text in front of a mark. -/
  | until
  /-- A name that a declaration has to have. -/
  | name
  | whiteSpace
  | endOfText
  /-- Something that must not follow. -/
  | absence
  /-- A property of what was read. -/
  | condition
  /-- A meaning of what was read. -/
  | conversion
  /-- One character of a class. -/
  | character
  /-- A run of characters outside a set. -/
  | exclusion
  /-- One of several alternatives. -/
  | choice
  /-- A run of characters of a class. -/
  | run
  /-- One character of a set. -/
  | member
  | digit
  | hexDigit
  | octDigit
  | lineEnding
  /-- Progress of a repeated item. -/
  | repetition
  /-- At least one item. -/
  | oneOrMore
  /-- An item in front of a stop. -/
  | untilStop
  /-- Progress of an item of a list. -/
  | list
  deriving DecidableEq, Repr

/-- The words that a report uses for a rule. -/
def Rule.description : Rule → Text
  | .literal => "tag".toList
  | .until => "take until".toList
  | .name => "alphabetic".toList
  | .whiteSpace => "multiple spaces".toList
  | .endOfText => "end of file".toList
  | .absence => "negation".toList
  | .condition => "predicate verification".toList
  | .conversion => "map on result".toList
  | .character => "satisfy".toList
  | .exclusion => "isnot".toList
  | .choice => "alternative".toList
  | .run => "takewhile1".toList
  | .member => "oneof".toList
  | .digit => "digit".toList
  | .hexDigit => "hexadecimal digit".toList
  | .octDigit => "octal digit".toList
  | .lineEnding => "crlf".toList
  | .repetition => "many0".toList
  | .oneOrMore => "many1".toList
  | .untilStop => "manytill".toList
  | .list => "separated list".toList

/-- Why a parser stopped at a place. -/
inductive Cause where
  /-- One character was expected. -/
  | char (c : Char)
  /-- A construct of the language was expected. -/
  | context (name : Text)
  /-- A reading rule did not apply. -/
  | rule (rule : Rule)
  deriving DecidableEq, Repr

/-- A place, given as the text that was left there, with what was expected. -/
structure Mark where
  place : Text
  cause : Cause
  deriving DecidableEq, Repr

/-- Innermost first. -/
abbrev Trace := List Mark

inductive Outcome (α : Type) where
  | ok (value : α) (rest : Text)
  | mismatch (trace : Trace)
  | failure (trace : Trace)
  deriving DecidableEq, Repr

def Parser (α : Type) : Type := Text → Outcome α

namespace Outcome

variable {α β : Type}

def map (f : α → β) : Outcome α → Outcome β
  | .ok a rest => .ok (f a) rest
  | .mismatch trace => .mismatch trace
  | .failure trace => .failure trace

/-- The next step runs on what is left after a success. -/
def andThen (f : α → Parser β) : Outcome α → Outcome β
  | .ok a rest => f a rest
  | .mismatch trace => .mismatch trace
  | .failure trace => .failure trace

end Outcome

namespace Parser

variable {α β : Type}

protected def pure (a : α) : Parser α := fun input => .ok a input

protected def bind (p : Parser α) (f : α → Parser β) : Parser β := fun input => (p input).andThen f

instance : Monad Parser where
  pure := Parser.pure
  bind := Parser.bind

theorem pure_apply (a : α) (input : Text) : (pure a : Parser α) input = .ok a input := rfl

theorem bind_apply (p : Parser α) (f : α → Parser β) (input : Text) :
    (p >>= f) input = (p input).andThen f := rfl

theorem map_apply (f : α → β) (p : Parser α) (input : Text) : (f <$> p) input = (p input).map f := by
  change (p input).andThen (fun a => Parser.pure (f a)) = _
  cases p input <;> rfl

instance : LawfulMonad Parser :=
  LawfulMonad.mk' Parser
    (fun p => by
      funext input
      rw [map_apply]
      cases p input <;> rfl)
    (fun _ _ => rfl)
    (fun p _ _ => by
      funext input
      simp only [bind_apply]
      cases p input <;> rfl)

/-- Stops at the input: another reading may be tried. -/
def mismatch (cause : Cause) : Parser α := fun input => .mismatch [⟨input, cause⟩]

/-- Stops at the input for good: `name` was expected there. -/
def unrecognized (name : String) : Parser α := fun input => .failure [⟨input, .context name.toList⟩]

/-- The text that `p` consumes. -/
def textOf (p : Parser α) : Parser Text := fun input =>
  match p input with
  | .ok _ rest => .ok (input.take (input.length - rest.length)) rest
  | .mismatch trace => .mismatch trace
  | .failure trace => .failure trace

/-- Reads with `p` and consumes nothing. -/
def lookahead (p : Parser α) : Parser α := fun input =>
  match p input with
  | .ok a _ => .ok a input
  | .mismatch trace => .mismatch trace
  | .failure trace => .failure trace

/-- Succeeds, and consumes nothing, where `p` does not match. -/
def notFollowedBy (p : Parser α) : Parser Unit := fun input =>
  match p input with
  | .ok _ _ => .mismatch [⟨input, .rule .absence⟩]
  | .mismatch _ => .ok () input
  | .failure trace => .failure trace

/-- Accepts what `p` reads only if it has the property. -/
def filter (p : Parser α) (property : α → Bool) : Parser α := fun input =>
  match p input with
  | .ok a rest => if property a then .ok a rest else .mismatch [⟨input, .rule .condition⟩]
  | .mismatch trace => .mismatch trace
  | .failure trace => .failure trace

/-- Converts what `p` reads, where that is possible. -/
def filterMap (p : Parser α) (convert : α → Option β) : Parser β := fun input =>
  match p input with
  | .ok a rest =>
    match convert a with
    | some b => .ok b rest
    | none => .mismatch [⟨input, .rule .conversion⟩]
  | .mismatch trace => .mismatch trace
  | .failure trace => .failure trace

/-- Makes every mismatch of `p` final. -/
def commit (p : Parser α) : Parser α := fun input =>
  match p input with
  | .ok a rest => .ok a rest
  | .mismatch trace => .failure trace
  | .failure trace => .failure trace

/-- Adds to the trace that `name` was expected where `p` began. -/
def expecting (name : String) (p : Parser α) : Parser α := fun input =>
  match p input with
  | .ok a rest => .ok a rest
  | .mismatch trace => .mismatch (trace ++ [⟨input, .context name.toList⟩])
  | .failure trace => .failure (trace ++ [⟨input, .context name.toList⟩])

/-- A mismatch of `p` consumes nothing and gives `none`. -/
def opt (p : Parser α) : Parser (Option α) := fun input =>
  match p input with
  | .ok a rest => .ok (some a) rest
  | .mismatch _ => .ok none input
  | .failure trace => .failure trace

/-- The first alternative that does not mismatch. Of the mismatches only the last one is kept. -/
def firstOf : List (Parser α) → Parser α
  | [], input => .mismatch [⟨input, .rule .choice⟩]
  | [p], input =>
    match p input with
    | .mismatch trace => .mismatch (trace ++ [⟨input, .rule .choice⟩])
    | outcome => outcome
  | p :: q :: ps, input =>
    match p input with
    | .mismatch _ => firstOf (q :: ps) input
    | outcome => outcome

end Parser

end HeaderOutline
