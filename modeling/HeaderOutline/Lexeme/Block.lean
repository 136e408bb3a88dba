import HeaderOutline.Text.Utf8
import HeaderOutline.Lexeme.Scan
import HeaderOutline.Parser.Basic
/-!
# Bracketed blocks

A block runs from an opening bracket to the bracket that closes it. Function bodies, initializers and
other text that is not described further is skipped this way.
-/

namespace HeaderOutline

/-- A bracket as it is looked for in the bytes of a text: the low byte of its code point. -/
def bracketByte (c : Char) : Nat := c.toNat % 256

/-- Counts one bracket pair in the bytes of a character, from `depth` on. The flag tells that a closing
bracket has brought the depth to zero. -/
def countBrackets (opener closer : Nat) : Int → List UInt8 → Int × Bool
  | depth, [] => (depth, false)
  | depth, byte :: bytes =>
    if byte.toNat = opener then countBrackets opener closer (depth + 1) bytes
    else if byte.toNat = closer then
      if depth = 1 then (0, true) else countBrackets opener closer (depth - 1) bytes
    else countBrackets opener closer depth bytes

/-- Walks on behind `before`, nearest character first, to the end of the block. -/
def blockFrom (opener closer : Nat) (depth : Int) (mode : Scan.Mode) (before : Text) :
    Text → Option (Text × Text)
  | [] => none
  | c :: rest =>
    match mode.step before c rest with
    | some mode' => blockFrom opener closer depth mode' (c :: before) rest
    | none =>
      match countBrackets opener closer depth (String.utf8EncodeChar c) with
      | (_, true) => some ((c :: before).reverse, rest)
      | (depth', false) => blockFrom opener closer depth' .code (c :: before) rest

/-- The text from `opener` to the `closer` that matches it. Brackets in literals and comments do not
count. A block that is never closed is reported at the end of the input. -/
def block (opener closer : Char) : Parser Text := fun input =>
  if input.head? = some opener then
    match blockFrom (bracketByte opener) (bracketByte closer) 0 .code [] input with
    | some (text, rest) => .ok text rest
    | none => .mismatch [⟨[], .char (Char.ofNat (bracketByte closer))⟩]
  else .mismatch [⟨input, .char opener⟩]

def parentheses : Parser Text := block '(' ')'

def braces : Parser Text := block '{' '}'

def angleBrackets : Parser Text := block '<' '>'

/-- What a block holds between its brackets. -/
def inside (block : Text) : Text := Text.trim (block.drop 1).dropLast

end HeaderOutline
