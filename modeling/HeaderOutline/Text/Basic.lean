/-!
# Text

A header is read as the list of its characters, so that what is left to read is a suffix of what was
given. Sizes that the user sees as byte counts are those of the UTF-8 encoding.
-/

namespace HeaderOutline

/-- Characters in reading order. -/
abbrev Text := List Char

namespace Text

/-- The Unicode property `White_Space`. -/
def isBlank (c : Char) : Bool :=
  let code := c.toNat
  (9 ≤ code && code ≤ 13) || code == 0x20 || code == 0x85 || code == 0xA0 || code == 0x1680
    || (0x2000 ≤ code && code ≤ 0x200A) || code == 0x2028 || code == 0x2029 || code == 0x202F
    || code == 0x205F || code == 0x3000

/-- A hexadecimal digit in ASCII. -/
def isHexDigit (c : Char) : Bool := c.isDigit || ('a' ≤ c && c ≤ 'f') || ('A' ≤ c && c ≤ 'F')

/-- Drops the longest tail of characters with the property. -/
def dropTail (p : Char → Bool) (s : Text) : Text := (s.reverse.dropWhile p).reverse

def trimStart (s : Text) : Text := s.dropWhile isBlank

def trimEnd (s : Text) : Text := dropTail isBlank s

def trim (s : Text) : Text := trimEnd (trimStart s)

/-- Number of bytes of the UTF-8 encoding. -/
def byteSize : Text → Nat
  | [] => 0
  | c :: s => c.utf8Size + byteSize s

/-- What follows `lead` at the front of the text, if it stands there. -/
def after? : (lead : Text) → Text → Option Text
  | [], s => some s
  | _ :: _, [] => none
  | a :: lead, c :: s => if a = c then after? lead s else none

/-- Splits the text in front of the first occurrence of `mark`. -/
def splitBefore? (mark : Text) : Text → Option (Text × Text)
  | [] => if mark.isEmpty then some ([], []) else none
  | c :: s =>
    if (after? mark (c :: s)).isSome then some ([], c :: s)
    else (splitBefore? mark s).map fun (front, back) => (c :: front, back)

/-- Joins the parts with `separator` between neighbours. -/
def join (separator : Text) : List Text → Text
  | [] => []
  | [part] => part
  | part :: next :: parts => part ++ separator ++ join separator (next :: parts)

private def linesFrom (current : Text) : Text → List Text
  | [] => if current.isEmpty then [] else [current.reverse]
  | c :: s =>
    if c = '\n' then
      (match current with
        | '\r' :: earlier => earlier.reverse
        | _ => current.reverse) :: linesFrom [] s
    else linesFrom (c :: current) s

/-- The lines of the text. A line ends at a line feed, which is dropped with one carriage return before
it; nothing after the last line feed is no line. -/
def lines (s : Text) : List Text := linesFrom [] s

/-- The part of the text in front of byte `offset`, and the part from there on. An offset inside a character is no place of
the text, and cutting its bytes there is an error: here it is taken for the end of that character, which belongs to the first
part then. -/
def splitAtByte : Nat → Text → Text × Text
  | 0, s => ([], s)
  | _ + 1, [] => ([], [])
  | offset + 1, c :: s =>
    let (front, back) := splitAtByte (offset + 1 - c.utf8Size) s
    (c :: front, back)

/-- The decimal digits of a number. -/
def ofNat (n : Nat) : Text := Nat.toDigits 10 n

def ofInt : Int → Text
  | .ofNat n => ofNat n
  | .negSucc n => '-' :: ofNat (n + 1)

@[simp] theorem byteSize_nil : byteSize [] = 0 := rfl

@[simp] theorem byteSize_cons (c : Char) (s : Text) : byteSize (c :: s) = c.utf8Size + byteSize s := rfl

@[simp] theorem byteSize_append (s t : Text) : byteSize (s ++ t) = byteSize s + byteSize t := by
  induction s with
  | nil => simp
  | cons c s ih => simp [ih, Nat.add_assoc]

private theorem linesFrom_of_ne {c : Char} (hc : c ≠ '\n') (current s : Text) :
    linesFrom current (c :: s) = linesFrom (c :: current) s := if_neg hc

private theorem linesFrom_lineFeed (current s : Text) : ∃ text,
    (current.reverse = text ∨ current.reverse = text ++ ['\r']) ∧ linesFrom current ('\n' :: s) = text :: linesFrom [] s := by
  by_cases hreturn : ∃ earlier, current = '\r' :: earlier
  · obtain ⟨earlier, rfl⟩ := hreturn
    exact ⟨earlier.reverse, .inr List.reverse_cons, rfl⟩
  · refine ⟨current.reverse, .inl rfl, ?_⟩
    rw [linesFrom, if_pos rfl]
    exact fun earlier heq => hreturn ⟨earlier, heq⟩

private theorem linesFrom_of_not_mem {s : Text} (hs : '\n' ∉ s) (current : Text) :
    linesFrom current s = if (s.reverse ++ current).isEmpty then [] else [(s.reverse ++ current).reverse] := by
  induction s generalizing current with
  | nil => rfl
  | cons c s ih =>
    rw [List.mem_cons, not_or] at hs
    rw [linesFrom_of_ne (Ne.symm hs.1), ih hs.2, List.reverse_cons, List.append_assoc, List.singleton_append]

private theorem linesFrom_append {line : Text} (hline : '\n' ∉ line) (current s : Text) : ∃ text,
    (current.reverse ++ line = text ∨ current.reverse ++ line = text ++ ['\r']) ∧
      linesFrom current (line ++ '\n' :: s) = text :: linesFrom [] s := by
  induction line generalizing current with
  | nil =>
    rw [List.append_nil]
    exact linesFrom_lineFeed current s
  | cons c line ih =>
    rw [List.mem_cons, not_or] at hline
    have hcurrent : current.reverse ++ c :: line = (c :: current).reverse ++ line := by simp
    rw [List.cons_append, linesFrom_of_ne (Ne.symm hline.1), hcurrent]
    exact ih hline.2 (c :: current)

/-- A text without a line feed is one line, unless it is empty. -/
theorem lines_of_not_mem {s : Text} (hs : '\n' ∉ s) : lines s = if s.isEmpty then [] else [s] := by
  rw [lines, linesFrom_of_not_mem hs, List.append_nil, List.reverse_reverse, List.isEmpty_reverse]

/-- The first line loses its line feed and at most one carriage return. -/
theorem lines_append {line : Text} (hline : '\n' ∉ line) (s : Text) : ∃ text,
    (line = text ∨ line = text ++ ['\r']) ∧ lines (line ++ '\n' :: s) = text :: lines s :=
  linesFrom_append hline [] s

theorem after?_eq_some_iff {lead s rest : Text} : after? lead s = some rest ↔ s = lead ++ rest := by
  induction lead generalizing s with
  | nil => simp [after?, eq_comm]
  | cons a lead ih =>
    cases s with
    | nil => simp [after?]
    | cons c s =>
      by_cases hac : a = c
      · simp [after?, hac, ih]
      · simp [after?, hac, eq_comm]

theorem splitBefore?_append {mark s front back : Text} (hsplit : splitBefore? mark s = some (front, back)) :
    front ++ back = s := by
  induction s generalizing front with
  | nil =>
    simp only [splitBefore?] at hsplit
    split at hsplit <;> simp_all
  | cons c s ih =>
    simp only [splitBefore?] at hsplit
    split at hsplit
    · simp_all
    · obtain ⟨⟨front', back'⟩, hrest, heq⟩ := Option.map_eq_some_iff.1 hsplit
      simp only [Prod.mk.injEq] at heq
      obtain ⟨rfl, rfl⟩ := heq
      simp [ih hrest]

end Text

end HeaderOutline
