import HeaderOutline.Json.Grammar
import HeaderOutline.Parser.Repeat
/-!
# Reading JSON

A reader for the format, which takes every spelling. An object that has a key twice is refused.
-/

namespace HeaderOutline.Json

open HeaderOutline.Parser

namespace Reader

def shortEscape : Parser Char := do
  let _ ← char '\\'
  (satisfy fun _ => true).filterMap escaped?

/-- A code unit in four hexadecimal digits. -/
def codeUnit : Parser Nat := do
  let _ ← literal "\\u"
  let a ← satisfy Text.isHexDigit
  let b ← satisfy Text.isHexDigit
  let c ← satisfy Text.isHexDigit
  let d ← satisfy Text.isHexDigit
  pure (unitValue a b c d)

/-- A code unit that is a character, or a pair of surrogates. -/
def unicodeEscape : Parser Char := do
  let unit ← codeUnit
  if isHighSurrogate unit then
    let low ← codeUnit.filter isLowSurrogate
    pure (Char.ofNat (pairValue unit low))
  else if isLowSurrogate unit then mismatch (.rule .conversion)
  else pure (Char.ofNat unit)

def character : Parser Char := firstOf [satisfy isPlain, shortEscape, unicodeEscape]

def string : Parser Text := do
  let _ ← char '"'
  let text ← many character
  let _ ← char '"'
  pure text

def natural : Parser Nat :=
  (fun digits => Nat.ofDigitChars 10 digits 0) <$>
    (takeWhile1 .digit Char.isDigit).filter fun digits => digits.head? != some '0' || digits == ['0']

def integer : Parser Int := do
  let sign ← opt (char '-')
  let n ← natural
  pure (if sign.isSome then -(n : Int) else n)

/-- Reads `p` between white space. -/
def padded {α : Type} (p : Parser α) : Parser α := do
  let _ ← spaces0
  let a ← p
  let _ ← spaces0
  pure a

/-- What `opener` and `closer` hold, with commas between neighbours. -/
def listed {α : Type} (opener closer : Char) (p : Parser α) : Parser (List α) := do
  let _ ← char opener
  let items ← sepBy (char ',') p
  let _ ← spaces0
  let _ ← char closer
  pure items

def field (value : Parser Json) : Parser (Text × Json) := do
  let key ← padded string
  let _ ← char ':'
  let value ← padded value
  pure (key, value)

/-- A value, given the parser for the values inside it. -/
def valueWith (value : Parser Json) : Parser Json := firstOf
  [(fun _ => .null) <$> literal "null",
   (fun _ => .bool true) <$> literal "true",
   (fun _ => .bool false) <$> literal "false",
   .int <$> integer,
   .string <$> string,
   .array <$> listed '[' ']' (padded value),
   .object <$> (listed '\x7b' '\x7d' (field value)).filter fun fields => decide (fields.map Prod.fst).Nodup]

def value : Parser Json := recurse valueWith

end Reader

/-- The value that a text stands for, if it stands for one. -/
def read (text : Text) : Option Json :=
  match Reader.padded Reader.value text with
  | .ok value [] => some value
  | _ => none

end HeaderOutline.Json
