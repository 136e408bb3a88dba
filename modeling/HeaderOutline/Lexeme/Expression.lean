import HeaderOutline.Lexeme.Scan
import HeaderOutline.Parser.Basic
/-!
# Expressions

Default values, array sizes and enumerator values are kept as they are written. An expression ends before
a stop character, or before a closing bracket that it has not opened.
-/

namespace HeaderOutline

/-- The character whose code point is the first byte of `c` in UTF-8. -/
def leadCharacter (c : Char) : Char :=
  match String.utf8EncodeChar c with
  | byte :: _ => Char.ofNat byte.toNat
  | [] => c

/-- A stop character is looked for in the first byte of each character. -/
def isStop (stops : Text) (c : Char) : Bool := stops.contains (leadCharacter c)

/-- The brackets that are open behind `c`, innermost first, or `none` if `c` closes one that is not open.
A closing bracket closes all brackets inside the one it matches. Angle brackets count if `angles` is set
and no other bracket is open. -/
def bracketsBehind (angles : Bool) (opened : List Char) (c : Char) : Option (List Char) :=
  let close (opener : Char) : Option (List Char) :=
    match opened.dropWhile (· != opener) with
    | [] => none
    | _ :: outer => some outer
  match c with
  | '(' | '[' | '{' => some (c :: opened)
  | ')' => close '('
  | ']' => close '['
  | '}' => close '{'
  | '<' => some (if angles && opened.all (· == '<') then '<' :: opened else opened)
  | '>' =>
    if angles then
      match opened with
      | [] => none
      | '<' :: outer => some outer
      | _ => some opened
    else some opened
  | _ => some opened

/-- Walks on behind `before`, nearest character first, to the end of the expression. -/
def expressionFrom (stops : Text) (angles : Bool) (opened : List Char) (mode : Scan.Mode) (before : Text) :
    Text → Text × Text
  | [] => (before.reverse, [])
  | c :: rest =>
    match mode.step before c rest with
    | some mode' => expressionFrom stops angles opened mode' (c :: before) rest
    | none =>
      if opened.isEmpty && (c == ';' || isStop stops c) then (before.reverse, c :: rest)
      else
        match bracketsBehind angles opened c with
        | some opened' => expressionFrom stops angles opened' .code (c :: before) rest
        | none => (before.reverse, c :: rest)

/-- An expression up to a semicolon, one of `stops`, or a closing bracket of an outer construct. -/
def expression (stops : Text) (angles : Bool) : Parser Text := fun input =>
  let (taken, rest) := expressionFrom stops angles [] .code [] input
  if (Text.trim taken).isEmpty then .mismatch [⟨input, .rule .until⟩] else .ok (Text.trim taken) rest

end HeaderOutline
