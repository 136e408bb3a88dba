import HeaderOutline.Lexeme.Gap
import HeaderOutline.Parser.Repeat
/-!
# Documentation comments

The text of a comment without its marks, one line below the other.
-/

namespace HeaderOutline

open HeaderOutline.Parser

namespace Comment

/-- The marks that lines of comments begin with, and white space. -/
def isMargin (c : Char) : Bool := Text.isBlank c || c == '*' || c == '/' || c == '!'

/-- A line without its margin, the `<` of a trailing comment, and white space at its ends. -/
def lineText (line : Text) : Text := Text.trim ((line.dropWhile isMargin).dropWhile (· == '<'))

def oneLine : Parser Text := do
  let _ ← firstOf [literal "///", literal "//!", literal "//"]
  let line ← restOfLine
  let _ ← opt lineEnding
  pure (lineText line)

/-- The lines of a block comment that hold text. -/
def blockLines : Parser (List Text) := do
  let _ ← literal "/*"
  let content ← takeUntil "*/"
  let _ ← literal "*/"
  pure (((Text.lines content).map lineText).filter fun line => !line.isEmpty)

end Comment

/-- Line comments below one another, or one block comment. -/
def comment : Parser Text := do
  let lines ← firstOf
    [many1 (do let _ ← spaces0; Comment.oneLine),
     Comment.blockLines]
  pure (Text.join ['\n'] lines)

/-- The comment in front of a declaration, if there is one, and the gap behind it. -/
def leadingComment : Parser (Option Text) := do
  let _ ← spaces0
  let text ← opt comment
  let _ ← skipGap
  pure text

end HeaderOutline
