import HeaderOutline.Parser.Basic
/-!
# Syntax errors

A stopped parser leaves a trace of places. The report names the line and column of the innermost place,
what was expected there, and the line of the source.
-/

namespace HeaderOutline

structure SyntaxError where
  /-- Lines are counted from 1. -/
  line : Nat
  /-- Characters of the line, counted from 1. -/
  column : Nat
  expected : Text
  snippet : Text
  deriving DecidableEq, Repr

namespace SyntaxError

/-- Longest part of a line that a report shows. -/
def snippetLength : Nat := 60

def endOfInput : Text := "<end of input>".toList

/-- The line as a report shows it, when `remaining` was left to read. -/
def snippetOf (line remaining : Text) : Text :=
  let shown := Text.trim line
  if shown.isEmpty && (Text.trim remaining).isEmpty then endOfInput
  else if snippetLength < shown.length then shown.take snippetLength ++ "...".toList
  else shown

/-- The report for the place where `remaining` is left of `source`. -/
def locate (source remaining expected : Text) : SyntaxError :=
  let (before, behind) := Text.splitAtByte (Text.byteSize source - Text.byteSize remaining) source
  let onLine (c : Char) : Bool := c != '\n'
  let lineHead := (before.reverse.takeWhile onLine).reverse
  { line := before.count '\n' + 1
    column := lineHead.length + 1
    expected := expected
    snippet := snippetOf (lineHead ++ behind.takeWhile onLine) remaining }

/-- What a trace says was expected: its innermost context, or else its innermost cause. -/
def expectation (trace : Trace) : Text :=
  let context? (mark : Mark) : Option Text :=
    match mark.cause with
    | .context name => some name
    | _ => none
  match trace.findSome? context?, trace with
  | some name, _ => name
  | none, [] => "a declaration".toList
  | none, mark :: _ =>
    match mark.cause with
    | .char c => ['\'', c, '\'']
    | .rule rule => rule.description
    | .context name => name

/-- The report for a trace. A trace without any place stands for the end of the source. -/
def ofTrace (source : Text) (trace : Trace) : SyntaxError :=
  let remaining := match trace with
    | [] => []
    | mark :: _ => mark.place
  locate source remaining (expectation trace)

/-- The report for a source that ends too early. -/
def incomplete (source : Text) : SyntaxError := locate source [] "more input".toList

def message (error : SyntaxError) : Text :=
  "line ".toList ++ Text.ofNat error.line ++ ", column ".toList ++ Text.ofNat error.column
    ++ ": expected ".toList ++ error.expected ++ " near '".toList ++ error.snippet ++ ['\'']

end SyntaxError

end HeaderOutline
