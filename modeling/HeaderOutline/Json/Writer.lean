import HeaderOutline.Json.Basic
/-!
# Writing JSON

Two layouts: everything on one line without blanks, or one value on a line, indented by four spaces for
each level, with empty arrays and objects closed at once. Strings escape quotes, backslashes and control
characters; all other characters stand for themselves.
-/

namespace HeaderOutline.Json

def hexDigit (n : Nat) : Char := if n < 10 then Char.ofNat (48 + n) else Char.ofNat (87 + n)

/-- A character inside a string. -/
def escape (c : Char) : Text :=
  match c with
  | '"' => ['\\', '"']
  | '\\' => ['\\', '\\']
  | '\x08' => ['\\', 'b']
  | '\x0c' => ['\\', 'f']
  | '\n' => ['\\', 'n']
  | '\r' => ['\\', 'r']
  | '\t' => ['\\', 't']
  | c =>
    if c.toNat < 0x20 then ['\\', 'u', '0', '0', hexDigit (c.toNat / 16), hexDigit (c.toNat % 16)] else [c]

def quote (text : Text) : Text := '"' :: text.flatMap escape ++ ['"']

/-- Text of the values that have no parts. -/
def boolText (value : Bool) : Text := if value then "true".toList else "false".toList

mutual

/-- On one line. -/
def compact : Json → Text
  | .null => "null".toList
  | .bool value => boolText value
  | .int value => Text.ofInt value
  | .string text => quote text
  | .array items => '[' :: compactItems items ++ [']']
  | .object fields => '\x7b' :: compactFields fields ++ ['\x7d']

def compactItems : List Json → Text
  | [] => []
  | [item] => compact item
  | item :: next :: items => compact item ++ ',' :: compactItems (next :: items)

def compactFields : List (Text × Json) → Text
  | [] => []
  | [(key, value)] => quote key ++ ':' :: compact value
  | (key, value) :: next :: fields => quote key ++ ':' :: compact value ++ ',' :: compactFields (next :: fields)

end

/-- A new line at a level of indentation. -/
def newLine (level : Nat) : Text := '\n' :: List.replicate (4 * level) ' '

mutual

/-- Over several lines, where the line of the value itself is at `level`. -/
def pretty (level : Nat) : Json → Text
  | .null => "null".toList
  | .bool value => boolText value
  | .int value => Text.ofInt value
  | .string text => quote text
  | .array [] => "[]".toList
  | .array (item :: items) => '[' :: prettyItems (level + 1) (item :: items) ++ newLine level ++ [']']
  | .object [] => "\x7b\x7d".toList
  | .object (field :: fields) => '\x7b' :: prettyFields (level + 1) (field :: fields) ++ newLine level ++ ['\x7d']

def prettyItems (level : Nat) : List Json → Text
  | [] => []
  | [item] => newLine level ++ pretty level item
  | item :: next :: items => newLine level ++ pretty level item ++ ',' :: prettyItems level (next :: items)

def prettyFields (level : Nat) : List (Text × Json) → Text
  | [] => []
  | [(key, value)] => newLine level ++ quote key ++ ": ".toList ++ pretty level value
  | (key, value) :: next :: fields =>
    newLine level ++ quote key ++ ": ".toList ++ pretty level value ++ ',' :: prettyFields level (next :: fields)

end

inductive Layout where
  | compact | pretty
  deriving DecidableEq, Repr

/-- The text of a file that holds the value. -/
def write (layout : Layout) (value : Json) : Text :=
  match layout with
  | .compact => value.compact ++ ['\n']
  | .pretty => value.pretty 0 ++ ['\n']

end HeaderOutline.Json
