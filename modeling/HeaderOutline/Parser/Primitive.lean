import HeaderOutline.Parser.Basic
/-!
# Primitive parsers

Single characters, fixed words and runs of characters.
-/

namespace HeaderOutline.Parser

def char (c : Char) : Parser Char
  | d :: rest => if d = c then .ok c rest else .mismatch [⟨d :: rest, .char c⟩]
  | [] => .mismatch [⟨[], .char c⟩]

def satisfy (property : Char → Bool) : Parser Char
  | c :: rest => if property c then .ok c rest else .mismatch [⟨c :: rest, .rule .character⟩]
  | [] => .mismatch [⟨[], .rule .character⟩]

def oneOf (chars : Text) : Parser Char
  | c :: rest => if chars.contains c then .ok c rest else .mismatch [⟨c :: rest, .rule .member⟩]
  | [] => .mismatch [⟨[], .rule .member⟩]

/-- The given text, as it stands. -/
def literal (word : String) : Parser Text := fun input =>
  match Text.after? word.toList input with
  | some rest => .ok word.toList rest
  | none => .mismatch [⟨input, .rule .literal⟩]

/-- The longest run of characters with the property, which may be empty. -/
def takeWhile (property : Char → Bool) : Parser Text := fun input =>
  .ok (input.takeWhile property) (input.dropWhile property)

/-- The longest run of characters with the property. `rule` is named if it would be empty. -/
def takeWhile1 (rule : Rule) (property : Char → Bool) : Parser Text
  | c :: rest =>
    if property c then .ok (c :: rest.takeWhile property) (rest.dropWhile property)
    else .mismatch [⟨c :: rest, .rule rule⟩]
  | [] => .mismatch [⟨[], .rule rule⟩]

/-- The text in front of the first `mark`. -/
def takeUntil (mark : String) : Parser Text := fun input =>
  match Text.splitBefore? mark.toList input with
  | some (front, back) => .ok front back
  | none => .mismatch [⟨input, .rule .until⟩]

/-- A non-empty run of characters that are none of `stops`. -/
def noneOf1 (stops : String) : Parser Text := takeWhile1 .exclusion fun c => !stops.toList.contains c

def eof : Parser Unit
  | [] => .ok () []
  | c :: rest => .mismatch [⟨c :: rest, .rule .endOfText⟩]

/-- White space between tokens: space, tab, carriage return and line feed. -/
def isSpace (c : Char) : Bool := c == ' ' || c == '\t' || c == '\r' || c == '\n'

def spaces0 : Parser Text := takeWhile isSpace

def spaces1 : Parser Text := takeWhile1 .whiteSpace isSpace

/-- Spaces and tabs. -/
def blanks0 : Parser Text := takeWhile fun c => c == ' ' || c == '\t'

/-- A line feed, or a carriage return and a line feed. -/
def lineEnding : Parser Text
  | '\n' :: rest => .ok ['\n'] rest
  | '\r' :: '\n' :: rest => .ok ['\r', '\n'] rest
  | input => .mismatch [⟨input, .rule .lineEnding⟩]

/-- A character that neither is nor begins a line ending. -/
def isInLine (c : Char) : Bool := c != '\r' && c != '\n'

/-- The rest of the line, without its ending. A carriage return that does not belong to a line ending is
no part of a line, so a line that holds one does not match. -/
def restOfLine : Parser Text := fun input =>
  match input.dropWhile isInLine with
  | '\r' :: '\n' :: rest => .ok (input.takeWhile isInLine) ('\r' :: '\n' :: rest)
  | '\r' :: _ => .mismatch [⟨input, .rule .literal⟩]
  | rest => .ok (input.takeWhile isInLine) rest

end HeaderOutline.Parser
