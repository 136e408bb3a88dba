import HeaderOutline.CType.Parser
import HeaderOutline.Lexeme.Attribute
/-!
# Declarators and parameters

A declarator is what follows the type that a statement shares: the name with its pointer marks, parameter
list, array sizes, bit width and initial value. Parameters of functions are made of declarators again, so
both are read here.
-/

namespace HeaderOutline

open HeaderOutline.Parser

structure Param where
  name : Option Text
  type : CType
  isConst : Bool
  defaultValue : Option Text
  deriving BEq, Repr, Inhabited

/-- A parameter list, and whether it ends in `...`. -/
structure ParamList where
  params : List Param
  isVariadic : Bool
  deriving BEq, Repr, Inhabited

namespace ParamList

def types (list : ParamList) : List CType := list.params.map Param.type

/-- The types of the parameters, with `...` behind them for a variadic list. -/
def typesWithDots (list : ParamList) : List CType :=
  list.types ++ if list.isVariadic then [.value "...".toList] else []

end ParamList

structure Declarator where
  name : Option Text
  type : CType
  bitfield : Option Text
  defaultValue : Option Text
  deriving BEq, Repr, Inhabited

namespace Declarator

def arrayDimension : Parser (Option Text) := do
  let _ ← char '['
  let size ← opt (expression [] false)
  let _ ← afterGap (char ']')
  pure size

def arrayDimensions : Parser (List (Option Text)) := many (afterGap arrayDimension)

/-- A word that may stand in front of the mark of a function pointer, such as a calling convention. -/
def isConvention (word : Text) : Bool := (Text.after? "__".toList word).isSome || isMacroName word

/-- `(*name)(params)`: a pointer or reference to a function that returns `result`, or an array of them. -/
def functionPointer (paramList : Parser ParamList) (result : CType) : Parser (Option Text × CType) := do
  let _ ← spaced (char '(')
  let _ ← opt (beforeGap (identifier.filter isConvention))
  let mark ← firstOf [char '*', char '&']
  let name ← opt (afterGap plainName)
  let sizes ← arrayDimensions
  let _ ← afterGap (char ')')
  let params ← afterGap paramList
  let function := CType.function result params.typesWithDots
  let indirect := if mark = '*' then CType.pointer function else CType.reference function
  pure (name, indirect.withDimensions sizes)

def initializer : Parser Text := firstOf
  [(do let _ ← spaced (char '='); expression [','] false),
   inside <$> afterGap braces,
   inside <$> afterGap parentheses]

def bitWidth : Parser Text := do
  let _ ← spaced (char ':')
  expression [',', ';'] false

/-- A declarator of a statement whose shared type is `base`. It may be without a name only if `isNamed` is
not set. -/
def parserWith (paramList : Parser ParamList) (base : CType) (isNamed : Bool) : Parser Declarator := do
  let type ← CType.suffixed base
  let (name, type) ← firstOf
    [functionPointer paramList type,
     (fun name => (name, type)) <$> opt (afterGap plainName)]
  if isNamed && name.isNone then mismatch (.rule .name)
  let params ← opt (afterGap paramList)
  let type := match params with
    | none => type
    | some params => .function type params.types
  let sizes ← arrayDimensions
  let bitfield ← opt bitWidth
  let defaultValue ← opt initializer
  pure { name, type := type.withDimensions sizes, bitfield, defaultValue }

end Declarator

namespace Param

/-- A parameter, whose type may be qualified and whose name may be missing. -/
def parserWith (paramList : Parser ParamList) (room : Nat) : Parser Param := do
  let _ ← attributes
  let isConst ← CType.leadingQualifiers
  let type ← unqualifiedType room isConst
  let declarator ← Declarator.parserWith paramList type false
  pure
    { name := declarator.name
      type := declarator.type
      isConst := isConst || declarator.type.isConst
      defaultValue := declarator.defaultValue }

end Param

/-- A parameter list in parentheses. A single `void` stands for no parameters. -/
def paramList (room : Nat) : Parser ParamList := recurse fun paramList => do
  let _ ← beforeGap (char '(')
  let params ← firstOf
    [(do
      let _ ← keyword "void"
      let _ ← lookahead (afterGap (char ')'))
      pure []),
     sepBy (spaced (char ',')) (Param.parserWith paramList room)]
  let dots ← opt do
    let _ ← opt (spaced (char ','))
    afterGap (literal "...")
  let _ ← afterGap (char ')')
  pure { params, isVariadic := dots.isSome }

def declarator (room : Nat) (base : CType) (isNamed : Bool) : Parser Declarator :=
  Declarator.parserWith (paramList room) base isNamed

/-- The names declared behind a definition, as in `struct { ... } first, *second;`. -/
def instances (room : Nat) : Parser (List Text) := do
  let declarators ← sepBy1 (spaced (char ',')) (afterGap (declarator room .unnamed true))
  pure (declarators.filterMap Declarator.name)

end HeaderOutline
