import HeaderOutline.Comment
import HeaderOutline.Declarator
/-!
# Enumerations

An enumerator without a written value takes the value behind that of the one before it, as long as that is
known and a signed 64-bit number.
-/

namespace HeaderOutline

open HeaderOutline.Parser

/-- The largest number that an enumerator can have: the largest signed one of 64 bits. -/
def maxEnumerator : Nat := 0x7FFFFFFFFFFFFFFF

inductive EnumeratorValue where
  | int (value : Int)
  /-- What is no integer literal is kept as text. -/
  | text (expression : Text)
  deriving DecidableEq, Repr, Inhabited

structure Enumerator where
  name : Text
  value : Option EnumeratorValue
  comment : Option Text
  deriving DecidableEq, Repr, Inhabited

structure Enumeration where
  name : Option Text
  isScoped : Bool
  type : Option CType
  enumerators : List Enumerator
  isForwardDeclaration : Bool
  instances : List Text
  comment : Option Text
  deriving BEq, Repr, Inhabited

namespace EnumeratorValue

def digitValue (c : Char) : Nat :=
  if c.isDigit then c.toNat - '0'.toNat
  else if 'a' ≤ c ∧ c ≤ 'f' then c.toNat - 'a'.toNat + 10
  else c.toNat - 'A'.toNat + 10

/-- The number that digits denote, if it is not too large. -/
def magnitude? (base : Nat) (digits : Text) : Option Nat :=
  let n := digits.foldl (fun n c => n * base + digitValue c) 0
  if n ≤ maxEnumerator then some n else none

def isOctDigit (c : Char) : Bool := '0' ≤ c && c ≤ '7'

/-- Hexadecimal, binary and octal digits behind their marks, or decimal digits. -/
def magnitude : Parser Nat := firstOf
  [(do
    let _ ← firstOf [literal "0x", literal "0X"]
    takeWhile1 .hexDigit Text.isHexDigit).filterMap (magnitude? 16),
   (do
    let _ ← firstOf [literal "0b", literal "0B"]
    takeWhile1 .run fun c => c == '0' || c == '1').filterMap (magnitude? 2),
   (do
    let _ ← char '0'
    takeWhile1 .octDigit isOctDigit).filterMap (magnitude? 8),
   (takeWhile1 .digit Char.isDigit).filterMap (magnitude? 10)]

def isIntSuffix (c : Char) : Bool := c == 'u' || c == 'U' || c == 'l' || c == 'L'

/-- A magnitude with an optional sign in front and suffix letters behind. -/
def intLiteral : Parser Int := do
  let sign ← opt do
    let _ ← char '-'
    blanks0
  let n ← magnitude
  let _ ← takeWhile isIntSuffix
  pure (if sign.isSome then -(n : Int) else n)

/-- The value that an expression stands for. Apostrophes between digits do not count. -/
def ofExpression (expression : Text) : EnumeratorValue :=
  match intLiteral (expression.filter (· != '\'')) with
  | .ok value [] => .int value
  | _ => .text expression

/-- The value behind `value`, if it is a number and not the largest. -/
def next? : EnumeratorValue → Option Int
  | .int value => if value < maxEnumerator then some (value + 1) else none
  | .text _ => none

end EnumeratorValue

namespace Enumerator

/-- Gives values to enumerators that have none. The first such enumerator gets `next`. -/
def assignValues (next : Option Int) : List Enumerator → List Enumerator
  | [] => []
  | enumerator :: enumerators =>
    let value := enumerator.value <|> next.map .int
    { enumerator with value } :: assignValues (value.bind EnumeratorValue.next?) enumerators

/-- An enumerator, which may carry a macro with arguments and attributes behind its name. -/
def parser : Parser Enumerator := do
  let comment ← leadingComment
  let name ← plainName
  let _ ← opt do
    let _ ← afterGap macroName
    afterGap parentheses
  let _ ← afterGap attributes
  let value ← opt do
    let _ ← spaced (char '=')
    expression [','] false
  pure { name, value := value.map EnumeratorValue.ofExpression, comment }

/-- Enumerators between commas. A comma may stand behind the last one. -/
def listParser : Parser (List Enumerator) := do
  let separator : Parser Unit := do
    let _ ← afterGap (char ',')
    let _ ← spaces0
    pure ()
  let enumerators ← sepBy separator parser
  let _ ← opt (afterGap (char ','))
  let _ ← skipGap
  pure (assignValues (some 0) enumerators)

end Enumerator

/-- An enumeration up to its closing brace, or a forward declaration up to its semicolon. -/
def enumerationDefinition (room : Nat) : Parser Enumeration := do
  let comment ← leadingComment
  let _ ← beforeGap (keyword "enum")
  let scopeWord ← opt (beforeGap (anyKeyword ["class", "struct"]))
  let _ ← attributes
  let name ← opt (beforeGap plainName)
  let type ← opt do
    let _ ← spaced (char ':')
    cType room
  let body ← firstOf
    [(do
      let _ ← afterGap (char '\x7b')
      let enumerators ← commit (expecting "enumerator" do
        let enumerators ← Enumerator.listParser
        let _ ← char '\x7d'
        pure enumerators)
      pure (some enumerators)),
     (fun _ => none) <$> lookahead (afterGap (char ';'))]
  pure
    { name, isScoped := scopeWord.isSome, type
      enumerators := body.getD []
      isForwardDeclaration := body.isNone
      instances := []
      comment }

/-- A whole enumeration statement. -/
def enumeration (room : Nat) : Parser Enumeration := do
  let definition ← enumerationDefinition room
  if definition.isForwardDeclaration then
    let _ ← afterGap (char ';')
    pure definition
  else
    let names ← opt (instances room)
    let _ ← commit (expecting "`;` after enum" (afterGap (char ';')))
    pure { definition with instances := names.getD [] }

end HeaderOutline
