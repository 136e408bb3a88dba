import HeaderOutline.Text.Basic
/-!
# UTF-8

Bytes of a file to text and back. Decoding never fails: each longest piece of ill-formed input that
starts like a character, or else each single byte, becomes one U+FFFD.
-/

namespace HeaderOutline.Text.Utf8

/-- A character whose first bytes have been read: how many are still owed, the bounds of the next one,
and the bits so far. -/
structure Unfinished where
  owed : Nat
  low : Nat
  high : Nat
  bits : Nat
  deriving Repr

/-- What a byte says where a character has to start. -/
inductive Lead where
  | whole (c : Char)
  | unfinished (u : Unfinished)
  | illFormed

/-- The byte that starts a character fixes its length. The second byte is bounded further after `E0`,
`ED`, `F0` and `F4`, which keeps out overlong forms, surrogates and code points above U+10FFFF. -/
def lead (byte : Nat) : Lead :=
  if byte < 0x80 then .whole (Char.ofNat byte)
  else if byte < 0xC2 then .illFormed
  else if byte < 0xE0 then .unfinished ⟨1, 0x80, 0xBF, byte % 0x20⟩
  else if byte = 0xE0 then .unfinished ⟨2, 0xA0, 0xBF, 0⟩
  else if byte = 0xED then .unfinished ⟨2, 0x80, 0x9F, byte % 0x10⟩
  else if byte < 0xF0 then .unfinished ⟨2, 0x80, 0xBF, byte % 0x10⟩
  else if byte = 0xF0 then .unfinished ⟨3, 0x90, 0xBF, 0⟩
  else if byte < 0xF4 then .unfinished ⟨3, 0x80, 0xBF, byte % 8⟩
  else if byte = 0xF4 then .unfinished ⟨3, 0x80, 0x8F, byte % 8⟩
  else .illFormed

def replacement : Char := '\uFFFD'

mutual

/-- Decodes where a character has to start. -/
def decodeStart : List UInt8 → Text
  | [] => []
  | byte :: bytes =>
    match lead byte.toNat with
    | .whole c => c :: decodeStart bytes
    | .unfinished u => decodeRest u bytes
    | .illFormed => replacement :: decodeStart bytes

/-- Decodes inside a character. A byte out of bounds ends the ill-formed piece and is read again as the
start of a character. -/
def decodeRest (u : Unfinished) : List UInt8 → Text
  | [] => [replacement]
  | byte :: bytes =>
    if u.low ≤ byte.toNat ∧ byte.toNat ≤ u.high then
      let bits := u.bits * 0x40 + byte.toNat % 0x40
      if u.owed = 1 then Char.ofNat bits :: decodeStart bytes
      else decodeRest ⟨u.owed - 1, 0x80, 0xBF, bits⟩ bytes
    else
      match lead byte.toNat with
      | .whole c => replacement :: c :: decodeStart bytes
      | .unfinished v => replacement :: decodeRest v bytes
      | .illFormed => replacement :: replacement :: decodeStart bytes

end

def decode (bytes : List UInt8) : Text := decodeStart bytes

def encode (s : Text) : List UInt8 := s.flatMap String.utf8EncodeChar

theorem encode_cons (c : Char) (s : Text) : encode (c :: s) = String.utf8EncodeChar c ++ encode s := by
  simp [encode]

theorem length_encode (s : Text) : (encode s).length = s.byteSize := by
  induction s with
  | nil => rfl
  | cons c s ih => rw [encode_cons, List.length_append, ih, String.length_utf8EncodeChar, Text.byteSize_cons]

end HeaderOutline.Text.Utf8
