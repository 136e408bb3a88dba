import HeaderOutline.CType.Basic
import HeaderOutline.Lexeme.Block
import HeaderOutline.Lexeme.Expression
import HeaderOutline.Lexeme.Gap
import HeaderOutline.Lexeme.Word
import HeaderOutline.Nesting
import HeaderOutline.Parser.Repeat
/-!
# Reading types

Type names, template argument lists, and the marks behind a type. A template argument list opens a level
of nesting, so `templateArgs` takes the room that is left; the other parsers take the parser for such lists.
-/

namespace HeaderOutline.CType

open HeaderOutline.Parser

def arithmeticWords : List String := ["unsigned", "signed", "short", "long", "int", "char", "double"]

/-- One or more arithmetic words, kept as they are written. -/
def arithmeticName : Parser Text := textOf (sepBy1 spaces1 (anyKeyword arithmeticWords))

/-- Names joined by `::`, with an empty one in front for a leading `::`. -/
def pathNames : Parser (List Text) := do
  let leading ← opt (literal "::")
  let names ← sepBy1 (literal "::") plainName
  pure (if leading.isSome then [] :: names else names)

def decltypeName : Parser Text := textOf do
  let _ ← keyword "decltype"
  afterGap parentheses

/-- A name without template arguments. -/
def baseName : Parser CType := firstOf
  [(fun text => .path [text]) <$> decltypeName,
   (fun text => .path [text]) <$> arithmeticName,
   .path <$> pathNames]

/-- A name, with template arguments and members of the generic type that they make. -/
def named (args : Parser (List CType)) : Parser CType := recurse fun named => do
  let base ← baseName
  match ← opt (afterGap args) with
  | none => pure base
  | some args =>
    match ← opt (do let _ ← literal "::"; named) with
    | none => pure (.generic base args)
    | some inner => pure (.member (.generic base args) inner)

/-- A mark behind a type. -/
inductive Suffix where
  | pointer | reference | pack | const | volatile
  deriving DecidableEq, Repr

namespace Suffix

/-- A second `const` and every `volatile` leave the type as it is. -/
def apply (type : CType) : Suffix → CType
  | .pointer => .pointer type
  | .reference => .reference type
  | .pack => .pack type
  | .const => if type.isConst then type else .const type
  | .volatile => type

def parser : Parser Suffix := firstOf
  [(fun _ => .pointer) <$> literal "*",
   (fun _ => .reference) <$> literal "&",
   (fun _ => .pack) <$> literal "...",
   (fun _ => .const) <$> keyword "const",
   (fun _ => .volatile) <$> keyword "volatile"]

end Suffix

/-- The marks behind `type`. -/
def suffixed (type : CType) : Parser CType := do
  let suffixes ← many (afterGap Suffix.parser)
  pure (suffixes.foldl Suffix.apply type)

/-- A type behind its leading qualifiers, which may be introduced by the kind of its name. -/
def unqualified (args : Parser (List CType)) (isConst : Bool) : Parser CType := do
  let _ ← opt (beforeGap (anyKeyword ["typename", "struct", "class", "enum", "union"]))
  let type ← named args
  suffixed (if isConst then .const type else type)

/-- The leading `const` and `volatile` of a type. Tells whether a `const` is among them. -/
def leadingQualifiers : Parser Bool := do
  let qualifiers ← many (beforeGap (anyKeyword ["const", "volatile"]))
  pure (qualifiers.contains "const".toList)

def qualified (args : Parser (List CType)) : Parser CType := do
  let isConst ← leadingQualifiers
  unqualified args isConst

/-- A template argument that is a type, possibly a function type. A comma or `>` has to follow. -/
def typeArgument (args : Parser (List CType)) : Parser CType := do
  let type ← qualified args
  let params ← opt do
    let _ ← afterGap (char '(')
    let params ← sepBy (spaced (char ',')) (spaced (qualified args))
    let _ ← afterGap (char ')')
    pure params
  let _ ← lookahead (afterGap (oneOf [',', '>']))
  match params with
  | none => pure type
  | some params => pure (.function type params)

/-- What is no type is kept as text. -/
def argument (args : Parser (List CType)) : Parser CType := firstOf
  [typeArgument args, .value <$> expression [','] true]

end CType

open HeaderOutline.Parser HeaderOutline.CType

/-- A template argument list in angle brackets. -/
def templateArgs : (room : Nat) → Parser (List CType)
  | 0 => tooDeep
  | room + 1 => do
    let _ ← char '<'
    let args ← sepBy (spaced (char ',')) (spaced (argument (templateArgs room)))
    let _ ← afterGap (char '>')
    pure args

/-- A type behind its leading qualifiers. -/
def unqualifiedType (room : Nat) (isConst : Bool) : Parser CType := unqualified (templateArgs room) isConst

/-- A type. -/
def cType (room : Nat) : Parser CType := qualified (templateArgs room)

end HeaderOutline
