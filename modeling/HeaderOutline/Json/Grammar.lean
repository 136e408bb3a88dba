import HeaderOutline.Json.Basic
import HeaderOutline.Parser.Primitive
/-!
# The JSON format

`Denotes value text` says that the text stands for the value, as the format defines it: white space may stand
around values, keys and marks, and a character of a string may be spelled in several ways. Numbers with a
fraction or an exponent stand for none of the values here.
-/

namespace HeaderOutline.Json

open HeaderOutline.Parser (isSpace)

/-! ### Strings -/

/-- A character that may stand for itself inside a string. -/
def isPlain (c : Char) : Bool := 0x20 ≤ c.toNat && c != '"' && c != '\\'

/-- What a character behind a backslash stands for. -/
def escaped? : Char → Option Char
  | '"' => some '"'
  | '\\' => some '\\'
  | '/' => some '/'
  | 'b' => some '\x08'
  | 'f' => some '\x0c'
  | 'n' => some '\n'
  | 'r' => some '\r'
  | 't' => some '\t'
  | _ => none

def hexValue (c : Char) : Nat :=
  if c.isDigit then c.toNat - '0'.toNat
  else if 'a' ≤ c then c.toNat - 'a'.toNat + 10
  else c.toNat - 'A'.toNat + 10

/-- The number of four hexadecimal digits. -/
def unitValue (a b c d : Char) : Nat := ((hexValue a * 16 + hexValue b) * 16 + hexValue c) * 16 + hexValue d

def isHighSurrogate (unit : Nat) : Bool := 0xD800 ≤ unit && unit < 0xDC00

def isLowSurrogate (unit : Nat) : Bool := 0xDC00 ≤ unit && unit < 0xE000

/-- The character outside the basic plane that two surrogates stand for. -/
@[irreducible] def pairValue (high low : Nat) : Nat := 0x10000 + (high - 0xD800) * 0x400 + (low - 0xDC00)

/-- A code unit as an escape. -/
inductive SpellsUnit : Nat → Text → Prop
  | digits {a b c d : Char} (hdigits : ∀ digit ∈ [a, b, c, d], Text.isHexDigit digit = true) :
    SpellsUnit (unitValue a b c d) ['\\', 'u', a, b, c, d]

/-- The ways to write a character inside a string. -/
inductive SpellsChar : Char → Text → Prop
  | plain {c : Char} (hc : isPlain c = true) : SpellsChar c [c]
  | short {mark c : Char} (hmark : escaped? mark = some c) : SpellsChar c ['\\', mark]
  | unit {unit : Nat} {text : Text} (hunit : SpellsUnit unit text) (hhigh : isHighSurrogate unit = false)
    (hlow : isLowSurrogate unit = false) : SpellsChar (Char.ofNat unit) text
  | pair {high low : Nat} {first second : Text} (hfirst : SpellsUnit high first) (hsecond : SpellsUnit low second)
    (hhigh : isHighSurrogate high = true) (hlow : isLowSurrogate low = true) :
    SpellsChar (Char.ofNat (pairValue high low)) (first ++ second)

/-- The ways to write a text between quotes. -/
inductive Spells : Text → Text → Prop
  | nil : Spells [] []
  | cons {c : Char} {s first others : Text} (hc : SpellsChar c first) (hs : Spells s others) :
    Spells (c :: s) (first ++ others)

/-! ### Numbers -/

/-- Decimal digits, of which the first is zero only if it is the only one. -/
structure IsNatural (n : Nat) (digits : Text) : Prop where
  nonempty : digits ≠ []
  isDigit : ∀ c ∈ digits, c.isDigit = true
  noLeadingZero : digits.head? = some '0' → digits = ['0']
  value : Nat.ofDigitChars 10 digits 0 = n

inductive IsInteger : Int → Text → Prop
  | natural {n : Nat} {digits : Text} (hdigits : IsNatural n digits) : IsInteger n digits
  | negative {n : Nat} {digits : Text} (hdigits : IsNatural n digits) : IsInteger (-n) ('-' :: digits)

/-! ### Values -/

/-- White space may stand on both sides. -/
def Padded (property : Text → Prop) (text : Text) : Prop :=
  ∃ before inner behind, text = before ++ (inner ++ behind) ∧ property inner ∧
    (∀ c ∈ before, isSpace c = true) ∧ ∀ c ∈ behind, isSpace c = true

def IsQuoted (value text : Text) : Prop := ∃ body, text = '"' :: (body ++ ['"']) ∧ Spells value body

mutual

/-- The text stands for the value. -/
def Denotes : Json → Text → Prop
  | .null, text => text = "null".toList
  | .bool true, text => text = "true".toList
  | .bool false, text => text = "false".toList
  | .int value, text => IsInteger value text
  | .string value, text => IsQuoted value text
  | .array items, text => ∃ body, text = '[' :: (body ++ [']']) ∧ DenotesItems items body
  | .object fields, text => ∃ body, text = '\x7b' :: (body ++ ['\x7d']) ∧ DenotesFields fields body

/-- The items of an array, with commas between them. -/
def DenotesItems : List Json → Text → Prop
  | [], text => ∀ c ∈ text, isSpace c = true
  | [item], text => Padded (Denotes item) text
  | item :: next :: items, text => ∃ first others, text = first ++ ',' :: others ∧
    Padded (Denotes item) first ∧ DenotesItems (next :: items) others

/-- The fields of an object, with commas between them. -/
def DenotesFields : List (Text × Json) → Text → Prop
  | [], text => ∀ c ∈ text, isSpace c = true
  | [field], text => DenotesField field text
  | field :: next :: fields, text => ∃ first others, text = first ++ ',' :: others ∧
    DenotesField field first ∧ DenotesFields (next :: fields) others

/-- A key, a colon and a value. -/
def DenotesField : Text × Json → Text → Prop
  | (key, value), text => ∃ first second, text = first ++ ':' :: second ∧
    Padded (IsQuoted key) first ∧ Padded (Denotes value) second

end

/-! ### Distinct keys -/

mutual

/-- No object in the value has a key twice. Of such a key, one reader takes the first field, another one the last. -/
def DistinctKeys : Json → Prop
  | .array items => DistinctKeysItems items
  | .object fields => (fields.map Prod.fst).Nodup ∧ DistinctKeysFields fields
  | _ => True

def DistinctKeysItems : List Json → Prop
  | [] => True
  | item :: items => DistinctKeys item ∧ DistinctKeysItems items

def DistinctKeysFields : List (Text × Json) → Prop
  | [] => True
  | (_, value) :: fields => DistinctKeys value ∧ DistinctKeysFields fields

end

end HeaderOutline.Json
