import HeaderOutline.Lexeme.Block
import HeaderOutline.Lexeme.Gap
import HeaderOutline.Lexeme.Word
import HeaderOutline.Parser.Repeat
/-!
# Attributes and other annotations

Constructs that declare nothing: attributes, static assertions and macro invocations.
-/

namespace HeaderOutline

open HeaderOutline.Parser

/-- An attribute in double brackets, or one of the words that take an argument list. -/
def attributeMark : Parser Text := firstOf
  [textOf do
    let _ ← literal "[["
    let _ ← takeUntil "]]"
    literal "]]",
   textOf do
    let _ ← anyKeyword ["__attribute__", "__declspec", "alignas"]
    afterGap parentheses]

def attributes : Parser Unit := do
  let _ ← many (beforeGap attributeMark)
  pure ()

def staticAssertion : Parser Text := textOf do
  let _ ← anyKeyword ["static_assert", "_Static_assert"]
  let _ ← afterGap parentheses
  afterGap (char ';')

/-- A macro name with arguments and an optional semicolon, or one that stands alone on its line. -/
def macroInvocation : Parser Text := firstOf
  [textOf do
    let _ ← macroName
    let _ ← afterGap parentheses
    opt (afterGap (char ';')),
   textOf do
    let _ ← macroName
    let _ ← blanks0
    lookahead lineEnding]

end HeaderOutline
