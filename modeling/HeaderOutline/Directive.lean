import HeaderOutline.Lexeme.Gap
import HeaderOutline.Lexeme.Word
import HeaderOutline.Parser.Repeat
/-!
# Preprocessor directives

A directive takes a logical line: a backslash at the end of a line joins the next one to it.
-/

namespace HeaderOutline

open HeaderOutline.Parser

structure Include where
  path : Text
  /-- Written in angle brackets. -/
  isSystem : Bool
  deriving DecidableEq, Repr, Inhabited

structure Define where
  name : Text
  /-- Only function-like macros have parameters. -/
  params : Option (List Text)
  value : Option Text
  deriving DecidableEq, Repr, Inhabited

inductive Directive where
  | includes (target : Include)
  | defines (definition : Define)
  | pragma (text : Text)
  /-- A conditional, or any other directive, as it is written. -/
  | conditional (text : Text)
  deriving DecidableEq, Repr

namespace Directive

/-- A line, nearest character first, that ends in a backslash. -/
def isContinued (line : Text) : Bool := (line.dropWhile (· == '\r')).head? == some '\\'

/-- Splits behind the logical line that continues `line`, nearest character first. -/
def splitLogicalLine (line : Text) : Text → Text × Text
  | [] => ([], [])
  | c :: rest =>
    if c = '\n' && !isContinued line then (['\n'], rest)
    else
      let (front, back) := splitLogicalLine (if c = '\n' then [] else c :: line) rest
      (c :: front, back)

/-- The logical line from here on, without white space at its end. -/
def logicalLine : Parser Text := fun input =>
  let (front, back) := splitLogicalLine [] input
  .ok (Text.trimEnd front) back

/-- The text in front of the first comment mark. -/
def beforeCommentMark : Text → Text
  | [] => []
  | c :: rest =>
    if c = '/' ∧ (rest.head? = some '/' ∨ rest.head? = some '*') then [] else c :: beforeCommentMark rest

def withoutComment (text : Text) : Text := Text.trim (beforeCommentMark text)

/-- What stands between `opener` at the front of the text and the next `closer`. -/
def quoted? (opener closer : Char) : Text → Option Text
  | [] => none
  | c :: rest =>
    if c = opener ∧ rest.contains closer then some (rest.takeWhile (· != closer)) else none

/-- The target of an include directive, if it has one. -/
def includeTarget? (body : Text) : Option Include :=
  let target := withoutComment body
  if target.isEmpty then none
  else
    match quoted? '"' '"' target, quoted? '<' '>' target with
    | some path, _ => some { path, isSystem := false }
    | none, some path => some { path, isSystem := true }
    | none, none => some { path := target, isSystem := false }

/-- The replacement text of a definition: its lines without backslashes at their ends, joined by spaces, up
to the first comment mark. -/
def replacement (body : Text) : Text :=
  let line (text : Text) : Text := Text.trim (Text.dropTail (· == '\\') (Text.trim text))
  let lines := ((Text.lines body).map line).filter fun text => !text.isEmpty
  withoutComment (Text.join [' '] lines)

def macroParams : Parser (List Text) := do
  let _ ← char '('
  let params ← sepBy (spaced (char ',')) (spaced (firstOf [identifier, literal "..."]))
  let _ ← char ')'
  pure params

/-- The body of a definition. The parameter list has to follow the name at once. -/
def define : Parser Define := do
  let _ ← blanks0
  let name ← identifier
  let params ← opt macroParams
  let body ← takeWhile fun _ => true
  let value := replacement body
  pure { name, params, value := if value.isEmpty then none else some value }

/-- The directive `name` with this body, of which `text` is the whole. -/
def ofBody (name body text : Text) : Parser Directive := fun rest =>
  let verbatim := Directive.conditional (withoutComment text)
  if ["include", "include_next", "import"].any fun word => word.toList == name then
    match includeTarget? (Text.trim body) with
    | some target => .ok (.includes target) rest
    | none => .ok verbatim rest
  else if name = "define".toList then
    match define body with
    | .ok definition _ => .ok (.defines definition) rest
    | .mismatch trace => .mismatch trace
    | .failure trace => .failure trace
  else if name = "pragma".toList then .ok (.pragma (withoutComment body)) rest
  else .ok verbatim rest

end Directive

/-- A directive from its number sign to the end of its logical line. -/
def directive : Parser Directive := fun input =>
  let line : Parser (Text × Text) := do
    let _ ← char '#'
    let _ ← blanks0
    let name ← identifier
    let body ← Directive.logicalLine
    pure (name, body)
  match line input with
  | .ok (name, body) rest => Directive.ofBody name body (input.take (input.length - rest.length)) rest
  | .mismatch trace => .mismatch trace
  | .failure trace => .failure trace

/-- A directive that includes a file. Any other directive is a mismatch behind it. -/
def includeDirective : Parser Include := do
  match ← directive with
  | .includes target => pure target
  | _ => mismatch (.rule .literal)

end HeaderOutline
