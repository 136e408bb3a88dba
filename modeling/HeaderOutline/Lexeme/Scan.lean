import HeaderOutline.Text.Basic
/-!
# Scanning past literals and comments

A scanner walks over raw source text one character at a time and has to know which characters are code:
brackets inside string literals, character literals and comments do not count. `Mode` says what the next
character belongs to, and `Mode.step` moves on by one character.
-/

namespace HeaderOutline.Scan

inductive Mode where
  | code
  /-- Inside a literal that ends with this quote. -/
  | quoted (quote : Char)
  /-- Inside a literal, right after a backslash. -/
  | escaped (quote : Char)
  | lineComment
  /-- The asterisk that opens a block comment is next. -/
  | blockOpening
  | blockComment
  /-- The slash that closes a block comment is next. -/
  | blockClosing
  deriving DecidableEq, Repr

/-- The characters that a number with separators is made of. -/
def isNumberChar (c : Char) : Bool := c.isAlphanum || c == '_' || c == '\''

/-- An apostrophe between `before`, nearest character first, and `after` separates digits if the number
characters in front of it begin with a digit and end with a hexadecimal digit, and one more follows. -/
def isDigitSeparator (before after : Text) : Bool :=
  let number := before.takeWhile isNumberChar
  match number.getLast?, number.head?, after.head? with
  | some first, some last, some next => first.isDigit && Text.isHexDigit last && next.isAlphanum
  | _, _, _ => false

/-- The mode behind a character of code that begins a literal or comment or separates digits, and `none`
behind every other one. -/
def enter (before : Text) (c : Char) (after : Text) : Option Mode :=
  if c = '\'' then some (if isDigitSeparator before after then .code else .quoted '\'')
  else if c = '"' then some (.quoted '"')
  else if c = '/' then
    match after.head? with
    | some '/' => some .lineComment
    | some '*' => some .blockOpening
    | _ => none
  else none

/-- The mode behind `c`, and `none` if `c` is code. The line feed behind a line comment is code again. -/
def Mode.step (mode : Mode) (before : Text) (c : Char) (after : Text) : Option Mode :=
  match mode with
  | .code => enter before c after
  | .quoted quote => some (if c = '\\' then .escaped quote else if c = quote then .code else .quoted quote)
  | .escaped quote => some (.quoted quote)
  | .lineComment => if c = '\n' then none else some .lineComment
  | .blockOpening => some .blockComment
  | .blockComment => some (if c = '*' ∧ after.head? = some '/' then .blockClosing else .blockComment)
  | .blockClosing => some .code

end HeaderOutline.Scan
