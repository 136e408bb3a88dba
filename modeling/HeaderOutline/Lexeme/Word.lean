import HeaderOutline.Text.Letter
import HeaderOutline.Parser.Primitive
/-!
# Words

Identifiers, keywords, and the two classes of words that are told apart by their spelling: reserved words,
which never name anything, and macro names, which are written in capitals.
-/

namespace HeaderOutline

open HeaderOutline.Parser

def isWordStart (c : Char) : Bool := Text.isLetter c || c == '_'

def isWordChar (c : Char) : Bool := Text.isLetter c || Text.isNumeral c || c == '_'

/-- A letter or underscore and all word characters after it. -/
def identifier : Parser Text
  | c :: rest =>
    if isWordStart c then .ok (c :: rest.takeWhile isWordChar) (rest.dropWhile isWordChar)
    else .mismatch [⟨c :: rest, .rule .character⟩]
  | [] => .mismatch [⟨[], .rule .character⟩]

/-- The word itself, where it is not the beginning of a longer one. -/
def keyword (word : String) : Parser Text := do
  let text ← literal word
  let _ ← notFollowedBy (satisfy isWordChar)
  pure text

/-- One of the words, tried in order. -/
def anyKeyword (words : List String) : Parser Text := firstOf (words.map keyword)

def isAsciiUpper (c : Char) : Bool := 'A' ≤ c && c ≤ 'Z'

/-- At least two characters, all of them ASCII capitals, digits or underscores, one of them a capital. -/
def isMacroName (word : Text) : Bool :=
  1 < word.length && word.any isAsciiUpper && word.all fun c => isAsciiUpper c || c.isDigit || c == '_'

/-- An identifier spelled like a macro, such as an export mark. -/
def macroName : Parser Text := identifier.filter isMacroName

def reservedWords : List String :=
  ["const", "volatile", "static", "inline", "virtual", "explicit", "friend", "typedef", "using", "namespace",
   "template", "typename", "operator", "extern", "constexpr", "consteval", "constinit", "mutable", "register",
   "thread_local", "public", "private", "protected", "return", "enum", "class", "struct", "union", "noexcept",
   "decltype", "sizeof", "throw", "new", "delete", "static_assert"]

/-- Words that can be neither a type nor the name of a declaration. -/
def isReserved (word : Text) : Bool := reservedWords.any fun reserved => reserved.toList == word

/-- An identifier that is not reserved. -/
def plainName : Parser Text := identifier.filter fun word => !isReserved word

end HeaderOutline
