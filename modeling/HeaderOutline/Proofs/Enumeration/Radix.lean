import HeaderOutline.Proofs.Enumeration.Numeral
import HeaderOutline.Proofs.Parser.Bounded
import HeaderOutline.Proofs.Parser.Reading
/-!
# Bases of literals

How the mark and the digits of an integer literal are read. The first two characters tell the base, so that of the four
readings only that of this base matters, and the decimal one where digits that begin with a zero are no octal ones.
-/

namespace HeaderOutline

/-- A parser that never fails for good does not match what it does not read. -/
theorem Parser.mismatches_of_ne_ok {α : Type} {p : Parser α} [BoundedBy [] p] {input : Text}
    (hp : ∀ a rest, p input ≠ .ok a rest) : Mismatches p input := by
  cases hread : p input with
  | ok a rest => exact absurd hread (hp a rest)
  | mismatch trace => exact ⟨trace, hread⟩
  | failure trace => exact absurd hread (BoundedBy.ne_failure input trace)

namespace EnumeratorValue

open HeaderOutline.Parser

inductive Radix where
  | decimal | octal | hexadecimal | binary
  deriving DecidableEq

namespace Radix

def base : Radix → Nat
  | .decimal => 10
  | .octal => 8
  | .hexadecimal => 16
  | .binary => 2

/-- What stands in front of the digits. The zero in front of an octal number is a digit. -/
def marks : Radix → List Text
  | .hexadecimal => ["0x".toList, "0X".toList]
  | .binary => ["0b".toList, "0B".toList]
  | .decimal | .octal => [[]]

/-- Octal digits begin with a zero, and decimal digits do not. -/
def Begins : Radix → Text → Prop
  | .decimal, digits => digits.head? ≠ some '0'
  | .octal, digits => digits.head? = some '0'
  | _, _ => True

/-- A mark is a zero with a letter behind it. -/
theorem mark_cases {radix : Radix} {mark : Text} (hmark : mark ∈ radix.marks) :
    mark = [] ∨ ∃ c ∈ "xXbB".toList, mark = ['0', c] := by
  cases radix <;> simp only [marks, List.mem_cons, List.not_mem_nil, or_false] at hmark
  · exact .inl hmark
  · exact .inl hmark
  · rcases hmark with rfl | rfl <;> exact .inr ⟨_, by decide, rfl⟩
  · rcases hmark with rfl | rfl <;> exact .inr ⟨_, by decide, rfl⟩

/-! ### Reading digits -/

variable {radix : Radix} {input digits rest : Text} {c : Char} {n : Nat}

theorem base_lower (radix : Radix) : 1 < radix.base := by cases radix <;> decide

theorem base_upper (radix : Radix) : radix.base ≤ 16 := by cases radix <;> decide

def isDigit : Radix → Char → Bool
  | .decimal => Char.isDigit
  | .octal => isOctDigit
  | .hexadecimal => Text.isHexDigit
  | .binary => fun c => c == '0' || c == '1'

theorem isHexDigit_of_isDigit (hc : radix.isDigit c = true) : Text.isHexDigit c = true := by
  have hdecimal (hc : '0' ≤ c ∧ c ≤ '9') : Text.isHexDigit c = true := by
    have hdigit : c.isDigit = true := by simpa [Char.isDigit, Char.le_def] using hc
    rw [Text.isHexDigit, hdigit]
    rfl
  cases radix with
  | decimal => exact hdecimal (by simpa [isDigit, Char.isDigit, Char.le_def] using hc)
  | octal =>
    obtain ⟨hlow, hhigh⟩ : '0' ≤ c ∧ c ≤ '7' := by simpa [isDigit, isOctDigit] using hc
    exact hdecimal ⟨hlow, Char.le_trans hhigh (by decide)⟩
  | hexadecimal => exact hc
  | binary =>
    have hc : c = '0' ∨ c = '1' := by simpa [isDigit] using hc
    rcases hc with rfl | rfl <;> decide

theorem isDigit_iff : radix.isDigit c = true ↔ IsDigit radix.base c := by
  have hchar (hc : Text.isHexDigit c = true) : radix.isDigit c = true ↔ digitValue c < radix.base :=
    forall_isHexDigit (motive := fun c => Text.isHexDigit c = true → (radix.isDigit c = true ↔ digitValue c < radix.base))
      (by cases radix <;> decide) hc hc
  exact ⟨fun hc => ⟨isHexDigit_of_isDigit hc, (hchar (isHexDigit_of_isDigit hc)).1 hc⟩, fun hc => (hchar hc.1).2 hc.2⟩

/-- The digits of a literal in front of the suffix, without its mark. -/
def reading : Radix → Parser Text
  | .hexadecimal => do
    let _ ← firstOf [literal "0x", literal "0X"]
    takeWhile1 .hexDigit Text.isHexDigit
  | .binary => do
    let _ ← firstOf [literal "0b", literal "0B"]
    takeWhile1 .run fun c => c == '0' || c == '1'
  | .octal => do
    let _ ← char '0'
    takeWhile1 .octDigit isOctDigit
  | .decimal => takeWhile1 .digit Char.isDigit

/-- What is read in front of the digits. A zero in front of octal digits makes no difference to their number. -/
def fronts : Radix → List Text
  | .octal => [['0']]
  | radix => radix.marks

/-- The digits stand at the front of the input and are all that do so. -/
structure Reads (radix : Radix) (input digits rest : Text) : Prop where
  ne_nil : digits ≠ []
  input : ∃ front ∈ radix.fronts, input = front ++ (digits ++ rest)
  digits : ∀ c ∈ digits, radix.isDigit c = true
  rest : ∀ c ∈ rest.head?, radix.isDigit c = false

/-- Two words that are told apart by their second characters. -/
theorem mark_eq_ok {lower upper : String} {a b c : Char} (hlower : lower.toList = [a, b]) (hupper : upper.toList = [a, c])
    (hne : b ≠ c) : (∃ word, firstOf [literal lower, literal upper] input = .ok word rest) ↔
      input = lower.toList ++ rest ∨ input = upper.toList ++ rest := by
  constructor
  · rintro ⟨word, hword⟩
    obtain ⟨p, hp, hword⟩ := firstOf_eq_ok hword
    simp only [List.mem_cons, List.not_mem_nil, or_false] at hp
    rcases hp with rfl | rfl
    · exact .inl (literal_eq_ok.1 hword).2
    · exact .inr (literal_eq_ok.1 hword).2
  · rintro (rfl | rfl)
    · exact ⟨_, firstOf_of_ok (literal_append lower rest)⟩
    · have hmismatch : Mismatches (literal lower) (upper.toList ++ rest) := by
        refine mismatches_of_ne_ok fun word behind hword => hne ?_
        have heq := (literal_eq_ok.1 hword).2
        rw [hlower, hupper] at heq
        exact (List.cons.inj (List.cons.inj heq).2).1.symm
      rw [firstOf_of_mismatch hmismatch]
      exact ⟨_, firstOf_of_ok (literal_append upper rest)⟩

theorem reading_eq_ok : radix.reading input = .ok digits rest ↔ radix.Reads input digits rest := by
  have hmarked {lower upper : String} {a b c : Char} (hlower : lower.toList = [a, b]) (hupper : upper.toList = [a, c])
      (hne : b ≠ c) (rule : Rule) (property : Char → Bool) :
      (do
        let _ ← firstOf [literal lower, literal upper]
        takeWhile1 rule property : Parser Text) input = .ok digits rest ↔
      digits ≠ [] ∧ (∃ front ∈ [lower.toList, upper.toList], input = front ++ (digits ++ rest)) ∧
        (∀ c ∈ digits, property c = true) ∧ ∀ c ∈ rest.head?, property c = false := by
    rw [bind_eq_ok]
    constructor
    · rintro ⟨word, mid, hword, hdigits⟩
      obtain ⟨hne_nil, rfl, hdigits, hrest⟩ := takeWhile1_eq_ok.1 hdigits
      have hinput := (mark_eq_ok hlower hupper hne).1 ⟨word, hword⟩
      exact ⟨hne_nil, by simpa using hinput, hdigits, hrest⟩
    · rintro ⟨hne_nil, hinput, hdigits, hrest⟩
      obtain ⟨word, hword⟩ := (mark_eq_ok hlower hupper hne).2 (by simpa using hinput)
      exact ⟨word, _, hword, takeWhile1_eq_ok.2 ⟨hne_nil, rfl, hdigits, hrest⟩⟩
  have hreads : radix.Reads input digits rest ↔ digits ≠ [] ∧ (∃ front ∈ radix.fronts, input = front ++ (digits ++ rest)) ∧
      (∀ c ∈ digits, radix.isDigit c = true) ∧ ∀ c ∈ rest.head?, radix.isDigit c = false :=
    ⟨fun h => ⟨h.ne_nil, h.input, h.digits, h.rest⟩, fun h => ⟨h.1, h.2.1, h.2.2.1, h.2.2.2⟩⟩
  rw [hreads]
  cases radix with
  | decimal =>
    rw [reading, takeWhile1_eq_ok]
    simp [fronts, marks, isDigit]
  | octal =>
    rw [reading, bind_eq_ok]
    simp only [char_eq_ok, takeWhile1_eq_ok, fronts, List.mem_singleton, exists_eq_left, isDigit]
    constructor
    · rintro ⟨c, mid, ⟨-, rfl⟩, hne, rfl, hdigits, hrest⟩
      exact ⟨hne, rfl, hdigits, hrest⟩
    · rintro ⟨hne, rfl, hdigits, hrest⟩
      exact ⟨_, _, ⟨rfl, rfl⟩, hne, rfl, hdigits, hrest⟩
  | hexadecimal => exact hmarked rfl rfl (by decide) .hexDigit Text.isHexDigit
  | binary => exact hmarked rfl rfl (by decide) .run _

/-! ### One reading for each base -/

/-- The reading of the base, if the number is not too large. -/
def alternative (radix : Radix) : Parser Nat := radix.reading.filterMap (magnitude? radix.base)

theorem magnitude_eq : magnitude = firstOf ([.hexadecimal, .binary, .octal, .decimal].map alternative) := rfl

instance : BoundedBy [] radix.alternative := by
  unfold alternative
  cases radix <;> (unfold reading; infer_instance)

theorem magnitude?_eq_some {base : Nat} : magnitude? base digits = some n ↔ number base digits = n ∧ n ≤ maxEnumerator := by
  rw [magnitude?, ← number]
  constructor
  · intro hread
    obtain ⟨hle, heq⟩ := Option.ite_none_right_eq_some.1 hread
    cases heq
    exact ⟨rfl, hle⟩
  · rintro ⟨rfl, hle⟩
    exact if_pos hle

theorem alternative_eq_ok : radix.alternative input = .ok n rest ↔
    ∃ digits, radix.Reads input digits rest ∧ number radix.base digits = n ∧ n ≤ maxEnumerator := by
  rw [alternative, filterMap_eq_ok]
  simp only [reading_eq_ok, magnitude?_eq_some]

/-- The base that the first two characters tell: decimal, unless a mark or an octal number begins with them. -/
def announced : Text → Radix
  | first :: second :: _ =>
    if first ≠ '0' then .decimal
    else if second = 'x' ∨ second = 'X' then .hexadecimal
    else if second = 'b' ∨ second = 'B' then .binary
    else if isOctDigit second then .octal
    else .decimal
  | _ => .decimal

theorem ne_mark_of_isOctDigit (hc : isOctDigit c = true) : ¬(c = 'x' ∨ c = 'X') ∧ ¬(c = 'b' ∨ c = 'B') := by
  refine ⟨?_, ?_⟩ <;> rintro (rfl | rfl) <;> revert hc <;> decide

theorem Reads.announced (hreads : radix.Reads input digits rest) (hradix : radix ≠ .decimal) : announced input = radix := by
  obtain ⟨hne, ⟨front, hfront, rfl⟩, hdigits, -⟩ := hreads
  cases radix with
  | decimal => exact absurd rfl hradix
  | octal =>
    obtain rfl := List.mem_singleton.1 hfront
    obtain ⟨c, digits, rfl⟩ := List.exists_cons_of_ne_nil hne
    have hc : isOctDigit c = true := hdigits c List.mem_cons_self
    obtain ⟨hx, hb⟩ := ne_mark_of_isOctDigit hc
    simp [Radix.announced, hx, hb, hc]
  | hexadecimal =>
    simp only [fronts, marks, List.mem_cons, List.not_mem_nil, or_false] at hfront
    rcases hfront with rfl | rfl <;> rfl
  | binary =>
    simp only [fronts, marks, List.mem_cons, List.not_mem_nil, or_false] at hfront
    rcases hfront with rfl | rfl <;> rfl

theorem alternative_of_ne_announced (hradix : radix ≠ .decimal) (hne : announced input ≠ radix) :
    Mismatches radix.alternative input := by
  refine mismatches_of_ne_ok fun n rest hread => hne ?_
  obtain ⟨digits, hreads, -⟩ := alternative_eq_ok.1 hread
  exact hreads.announced hradix

theorem magnitude_of_announced (hread : (announced input).alternative input = .ok n rest) : magnitude input = .ok n rest := by
  have hothers (front : List Radix) (hfront : ∀ radix ∈ front, radix ≠ .decimal ∧ announced input ≠ radix) :
      ∀ p ∈ front.map alternative, Mismatches p input := by
    intro p hp
    obtain ⟨radix, hradix, rfl⟩ := List.mem_map.1 hp
    exact alternative_of_ne_announced (hfront radix hradix).1 (hfront radix hradix).2
  rw [magnitude_eq]
  cases hradix : announced input <;> rw [hradix] at hread hothers
  · exact firstOf_append_of_ok (hothers [.hexadecimal, .binary, .octal] (by decide)) hread
  · exact firstOf_append_of_ok (hothers [.hexadecimal, .binary] (by decide)) hread
  · exact firstOf_of_ok hread
  · exact firstOf_append_of_ok (hothers [.hexadecimal] (by decide)) hread

/-- Only the base that is told matters, and the decimal reading where it does not apply. -/
theorem alternative_of_magnitude (hread : magnitude input = .ok n rest) :
    (announced input).alternative input = .ok n rest ∨
      Mismatches (announced input).alternative input ∧ Radix.decimal.alternative input = .ok n rest := by
  rw [magnitude_eq] at hread
  have hsplit : [hexadecimal, binary, octal, decimal].map alternative =
      [hexadecimal, binary, octal].map alternative ++ [alternative decimal] := rfl
  rw [hsplit, firstOf_append_eq_ok (List.cons_ne_nil _ _)] at hread
  rcases hread with hread | ⟨hmismatch, hread⟩
  · obtain ⟨p, hp, hread⟩ := firstOf_eq_ok hread
    obtain ⟨radix, hradix, rfl⟩ := List.mem_map.1 hp
    obtain ⟨digits, hreads, -⟩ := alternative_eq_ok.1 hread
    have hannounced : announced input = radix := hreads.announced (by rintro rfl; revert hradix; decide)
    exact .inl (hannounced ▸ hread)
  · have hread : Radix.decimal.alternative input = .ok n rest := by
      obtain ⟨p, hp, hread⟩ := firstOf_eq_ok hread
      rwa [List.mem_singleton.1 hp] at hread
    cases hradix : announced input with
    | decimal => exact .inl hread
    | _ => exact .inr ⟨hmismatch.of_firstOf _ (List.mem_map_of_mem (by decide)), hread⟩

/-! ### Literals without a sign -/

/-- Digits that begin with a zero but go on with a digit that is not octal. They are read as decimal digits. -/
def MisleadingZero (digits : Text) : Prop := ∃ second tail, (second = '8' ∨ second = '9') ∧ digits = '0' :: second :: tail

/-- The digits may begin a number in the base, as the reading has it. -/
def BeginsReading (radix : Radix) (digits : Text) : Prop := radix.Begins digits ∨ radix = .decimal ∧ MisleadingZero digits

theorem number_zero_cons (base : Nat) (digits : Text) : number base ('0' :: digits) = number base digits :=
  number_zeros_append base 1 digits

theorem isNumeral_of_isDigit (hne : digits ≠ []) (hdigits : ∀ c ∈ digits, radix.isDigit c = true) :
    IsNumeral radix.base digits (number radix.base digits) :=
  isNumeral_number radix.base_lower hne fun c hc => isDigit_iff.1 (hdigits c hc)

theorem isDigit_of_isNumeral (hdigits : IsNumeral radix.base digits n) : ∀ c ∈ digits, radix.isDigit c = true :=
  fun c hc => isDigit_iff.2 (hdigits.isDigit radix.base_lower radix.base_upper c hc)

theorem isDigit_of_isOctDigit (hc : isOctDigit c = true) : Radix.decimal.isDigit c = true := by
  obtain ⟨hhex, hvalue⟩ := isDigit_iff.1 (show Radix.octal.isDigit c = true from hc)
  exact isDigit_iff.2 ⟨hhex, Nat.lt_trans hvalue (by decide)⟩

theorem decimalDigit_cases (hc : Radix.decimal.isDigit c = true) : isOctDigit c = true ∨ c = '8' ∨ c = '9' :=
  forall_isHexDigit (motive := fun c => Radix.decimal.isDigit c = true → isOctDigit c = true ∨ c = '8' ∨ c = '9')
    (by decide) (isHexDigit_of_isDigit hc) hc

/-- The mark and the digits of a literal, as the reading has it. -/
structure Shows (radix : Radix) (mark digits : Text) (n : Nat) : Prop where
  mark : mark ∈ radix.marks
  begins : radix.BeginsReading digits
  digits : IsNumeral radix.base digits n

/-- Behind a zero the octal reading is tried first, and its number is no larger than that of the decimal one. -/
theorem not_isOctDigit_of_decimal {second : Char} {tail : Text}
    (hreads : Radix.decimal.Reads ('0' :: second :: (tail ++ rest)) ('0' :: second :: tail) rest)
    (hle : number Radix.decimal.base ('0' :: second :: tail) ≤ maxEnumerator)
    (hoctal : ∀ n rest', Radix.octal.alternative ('0' :: second :: (tail ++ rest)) ≠ .ok n rest') :
    isOctDigit second = false := by
  refine Bool.eq_false_iff.2 fun hsecond => ?_
  obtain ⟨run, back, hrun⟩ : ∃ run back, Parser.takeWhile isOctDigit tail = .ok run back := ⟨_, _, rfl⟩
  obtain ⟨rfl, hdigits, hback⟩ := takeWhile_eq_ok.1 hrun
  have hbehind : ∀ c ∈ (back ++ rest).head?, Radix.octal.isDigit c = false := by
    cases back with
    | nil =>
      intro c hc
      refine Bool.eq_false_iff.2 fun hoct => ?_
      have hdecimal := isDigit_of_isOctDigit hoct
      rw [hreads.rest c hc] at hdecimal
      cases hdecimal
    | cons c back => exact hback
  have hoct : Radix.octal.Reads ('0' :: second :: (run ++ back ++ rest)) (second :: run) (back ++ rest) :=
    ⟨List.cons_ne_nil _ _, ⟨['0'], List.mem_singleton.2 rfl, by simp⟩, List.forall_mem_cons.2 ⟨hsecond, hdigits⟩, hbehind⟩
  have hnumber : number Radix.octal.base (second :: run) ≤ maxEnumerator := calc
    number Radix.octal.base (second :: run) ≤ number Radix.octal.base (second :: run ++ back) :=
      number_le_append (by decide) _ _
    _ ≤ number Radix.decimal.base (second :: run ++ back) := foldl_digits_mono (by decide) (Nat.le_refl 0) _
    _ = number Radix.decimal.base ('0' :: second :: (run ++ back)) := (number_zero_cons _ _).symm
    _ ≤ maxEnumerator := hle
  exact hoctal _ _ (alternative_eq_ok.2 ⟨_, hoct, rfl, hnumber⟩)

/-- Decimal digits that are read as such are those of a literal. -/
theorem exists_shows_of_decimal (hreads : Radix.decimal.Reads input digits rest)
    (hle : number Radix.decimal.base digits ≤ maxEnumerator)
    (hoctal : announced input = .octal → Mismatches Radix.octal.alternative input) :
    ∃ radix : Radix, radix.Shows [] digits (number Radix.decimal.base digits) := by
  obtain ⟨first, tail, rfl⟩ := List.exists_cons_of_ne_nil hreads.ne_nil
  have hnumeral := isNumeral_of_isDigit hreads.ne_nil hreads.digits
  by_cases hfirst : first = '0'
  · subst hfirst
    cases tail with
    | nil => exact ⟨.octal, List.mem_singleton.2 rfl, .inl rfl, 0, rfl⟩
    | cons second tail =>
      have hinput : input = '0' :: second :: (tail ++ rest) := by
        obtain ⟨_, hfront, hinput⟩ := hreads.input
        obtain rfl := List.mem_singleton.1 hfront
        exact hinput
      subst hinput
      have hnone : isOctDigit second = false := by
        refine not_isOctDigit_of_decimal hreads hle fun n rest' hread => ?_
        obtain ⟨digits, hdigits, -⟩ := alternative_eq_ok.1 hread
        exact (hoctal (hdigits.announced (by decide))).ne_ok hread
      have hsecond := decimalDigit_cases (hreads.digits second (List.mem_cons_of_mem _ List.mem_cons_self))
      rw [hnone] at hsecond
      exact ⟨.decimal, List.mem_singleton.2 rfl, .inr ⟨rfl, second, tail, by simpa using hsecond, rfl⟩, hnumeral⟩
  · exact ⟨.decimal, List.mem_singleton.2 rfl, .inl (by simpa [Begins] using hfirst), hnumeral⟩

theorem exists_shows_of_alternative (hradix : radix ≠ .decimal) (hread : radix.alternative input = .ok n rest) :
    ∃ mark digits, radix.Shows mark digits n ∧ input = mark ++ (digits ++ rest) := by
  obtain ⟨digits, hreads, rfl, -⟩ := alternative_eq_ok.1 hread
  obtain ⟨front, hfront, hinput⟩ := hreads.input
  have hnumeral := isNumeral_of_isDigit hreads.ne_nil hreads.digits
  cases radix with
  | decimal => exact absurd rfl hradix
  | octal =>
    obtain rfl := List.mem_singleton.1 hfront
    have hdigits : ∀ c ∈ '0' :: digits, Radix.octal.isDigit c = true := List.forall_mem_cons.2 ⟨by decide, hreads.digits⟩
    have hnumeral := isNumeral_of_isDigit (List.cons_ne_nil _ _) hdigits
    rw [number_zero_cons] at hnumeral
    exact ⟨[], '0' :: digits, ⟨List.mem_singleton.2 rfl, .inl rfl, hnumeral⟩, hinput⟩
  | hexadecimal => exact ⟨front, digits, ⟨hfront, .inl trivial, hnumeral⟩, hinput⟩
  | binary => exact ⟨front, digits, ⟨hfront, .inl trivial, hnumeral⟩, hinput⟩

/-- A number that is read is that of a mark and digits in front of the rest. -/
theorem exists_shows_of_magnitude (hread : magnitude input = .ok n rest) : n ≤ maxEnumerator ∧
    ∃ (radix : Radix) (mark digits : Text), radix.Shows mark digits n ∧ input = mark ++ (digits ++ rest) := by
  have hdecimal (hread : Radix.decimal.alternative input = .ok n rest)
      (hoctal : announced input = .octal → Mismatches Radix.octal.alternative input) : n ≤ maxEnumerator ∧
      ∃ (radix : Radix) (mark digits : Text), radix.Shows mark digits n ∧ input = mark ++ (digits ++ rest) := by
    obtain ⟨digits, hreads, rfl, hle⟩ := alternative_eq_ok.1 hread
    obtain ⟨radix, hshows⟩ := exists_shows_of_decimal hreads hle hoctal
    obtain ⟨_, hfront, hinput⟩ := hreads.input
    obtain rfl := List.mem_singleton.1 hfront
    exact ⟨hle, radix, [], digits, hshows, hinput⟩
  rcases alternative_of_magnitude hread with hread | ⟨hmismatch, hread⟩
  · by_cases hradix : announced input = .decimal
    · exact hdecimal (hradix ▸ hread) fun hoctal => by cases hradix.symm.trans hoctal
    · obtain ⟨_, -, -, hle⟩ := alternative_eq_ok.1 hread
      exact ⟨hle, announced input, exists_shows_of_alternative hradix hread⟩
  · exact hdecimal hread fun hoctal => hoctal ▸ hmismatch

theorem Reads.unique {digits' rest' : Text} (hreads : radix.Reads input digits rest) (hreads' : radix.Reads input digits' rest') :
    digits = digits' ∧ rest = rest' := by
  have hread := reading_eq_ok.2 hreads
  rw [reading_eq_ok.2 hreads'] at hread
  cases hread
  exact ⟨rfl, rfl⟩

theorem isDigit_of_isIntSuffix (radix : Radix) (hc : isIntSuffix c = true) : radix.isDigit c = false := by
  have hc : ((c = 'u' ∨ c = 'U') ∨ c = 'l') ∨ c = 'L' := by simpa [isIntSuffix] using hc
  rcases hc with ((rfl | rfl) | rfl) | rfl <;> cases radix <;> decide

/-- Nothing but suffix letters may go on behind the digits. -/
def EndsDigits (rest : Text) : Prop := ∀ c ∈ rest.head?, isIntSuffix c = true

variable {mark : Text}

/-- In front of a suffix the digits are read in the base that is told. A zero alone is read as a decimal digit. -/
theorem Shows.exists_reads (hshows : radix.Shows mark digits n) (hrest : EndsDigits rest) :
    ∃ radix' shown, announced (mark ++ (digits ++ rest)) = radix' ∧ radix'.Reads (mark ++ (digits ++ rest)) shown rest ∧
      number radix'.base shown = n := by
  obtain ⟨hmark, hbegins, hdigits⟩ := hshows
  have hnumber := hdigits.number_eq radix.base_lower radix.base_upper
  have hclass := isDigit_of_isNumeral hdigits
  have hends (radix : Radix) : ∀ c ∈ rest.head?, radix.isDigit c = false := fun c hc => isDigit_of_isIntSuffix radix (hrest c hc)
  have hself (hfront : mark ∈ radix.fronts) : radix.Reads (mark ++ (digits ++ rest)) digits rest :=
    ⟨hdigits.ne_nil, ⟨mark, hfront, rfl⟩, hclass, hends radix⟩
  cases radix with
  | hexadecimal => exact ⟨.hexadecimal, digits, (hself hmark).announced (by decide), hself hmark, hnumber⟩
  | binary => exact ⟨.binary, digits, (hself hmark).announced (by decide), hself hmark, hnumber⟩
  | octal =>
    obtain rfl := List.mem_singleton.1 hmark
    have hfirst : digits.head? = some '0' := hbegins.resolve_right fun hdecimal => by cases hdecimal.1
    obtain ⟨tail, rfl⟩ := List.head?_eq_some_iff.1 hfirst
    cases tail with
    | nil =>
      have hannounced : announced ('0' :: rest) = .decimal := by
        cases rest with
        | nil => rfl
        | cons c rest =>
          have hc : isOctDigit c = false := isDigit_of_isIntSuffix .octal (hrest c rfl)
          have hsuffix : ((c = 'u' ∨ c = 'U') ∨ c = 'l') ∨ c = 'L' := by simpa [isIntSuffix] using hrest c rfl
          rcases hsuffix with ((rfl | rfl) | rfl) | rfl <;> rfl
      refine ⟨.decimal, ['0'], hannounced, ⟨List.cons_ne_nil _ _, ⟨[], List.mem_singleton.2 rfl, rfl⟩, ?_, hends .decimal⟩, hnumber⟩
      exact List.forall_mem_singleton.2 rfl
    | cons second tail =>
      have hreads : Radix.octal.Reads ('0' :: second :: tail ++ rest) (second :: tail) rest :=
        ⟨List.cons_ne_nil _ _, ⟨['0'], List.mem_singleton.2 rfl, rfl⟩, (List.forall_mem_cons.1 hclass).2, hends .octal⟩
      rw [number_zero_cons] at hnumber
      exact ⟨.octal, second :: tail, hreads.announced (by decide), hreads, hnumber⟩
  | decimal =>
    obtain rfl := List.mem_singleton.1 hmark
    refine ⟨.decimal, digits, ?_, hself (List.mem_singleton.2 rfl), hnumber⟩
    rcases hbegins with hbegins | ⟨-, second, tail, rfl | rfl, rfl⟩
    · obtain ⟨first, tail, rfl⟩ := List.exists_cons_of_ne_nil hdigits.ne_nil
      have hfirst : first ≠ '0' := fun heq => hbegins (congrArg some heq)
      cases htail : tail ++ rest <;> simp [announced, htail, hfirst]
    · rfl
    · rfl

theorem magnitude_of_shows (hshows : radix.Shows mark digits n) (hrest : EndsDigits rest) (hle : n ≤ maxEnumerator) :
    magnitude (mark ++ (digits ++ rest)) = .ok n rest := by
  obtain ⟨radix', shown, hannounced, hreads, hnumber⟩ := hshows.exists_reads hrest
  refine magnitude_of_announced ?_
  rw [hannounced]
  exact alternative_eq_ok.2 ⟨shown, hreads, hnumber, hle⟩

/-- Where a number is too large, the zero of its mark may be read, but then the mark is no suffix. -/
theorem not_isIntSuffix_of_decimal {n' : Nat} {shown rest' : Text} (hradix : radix ≠ .decimal)
    (hreads : radix.Reads input shown rest) (hrest : EndsDigits rest) (hlarge : maxEnumerator < number radix.base shown)
    (hdecimal : Radix.decimal.alternative input = .ok n' rest') : ∃ c ∈ rest', isIntSuffix c = false := by
  obtain ⟨digits, hdigits, rfl, hle⟩ := alternative_eq_ok.1 hdecimal
  obtain ⟨front, hfront, rfl⟩ := hreads.input
  have hzero {c : Char} {tail : Text} (hinput : front ++ (shown ++ rest) = '0' :: c :: tail)
      (hc : Radix.decimal.isDigit c = false) : rest' = c :: tail := by
    rw [hinput] at hdigits
    have hshort : Radix.decimal.Reads ('0' :: c :: tail) ['0'] (c :: tail) :=
      ⟨List.cons_ne_nil _ _, ⟨[], List.mem_singleton.2 rfl, rfl⟩, List.forall_mem_singleton.2 rfl, by rintro _ ⟨⟩; exact hc⟩
    exact (hdigits.unique hshort).2
  cases radix with
  | decimal => exact absurd rfl hradix
  | octal =>
    -- All the digits are decimal ones, and in this base their number is even larger.
    exfalso
    obtain rfl := List.mem_singleton.1 hfront
    have hlong : Radix.decimal.Reads ('0' :: (shown ++ rest)) ('0' :: shown) rest :=
      ⟨List.cons_ne_nil _ _, ⟨[], List.mem_singleton.2 rfl, rfl⟩,
        List.forall_mem_cons.2 ⟨rfl, fun c hc => isDigit_of_isOctDigit (hreads.digits c hc)⟩,
        fun c hc => isDigit_of_isIntSuffix _ (hrest c hc)⟩
    rw [(hdigits.unique hlong).1, number_zero_cons] at hle
    have hmono : number Radix.octal.base shown ≤ number Radix.decimal.base shown :=
      foldl_digits_mono (by decide) (Nat.le_refl 0) shown
    exact absurd (Nat.lt_of_lt_of_le hlarge hmono) (Nat.not_lt.2 hle)
  | hexadecimal =>
    have hfront : front = "0x".toList ∨ front = "0X".toList := by simpa [fronts, marks] using hfront
    rcases hfront with rfl | rfl
    · exact ⟨'x', hzero rfl rfl ▸ List.mem_cons_self, rfl⟩
    · exact ⟨'X', hzero rfl rfl ▸ List.mem_cons_self, rfl⟩
  | binary =>
    have hfront : front = "0b".toList ∨ front = "0B".toList := by simpa [fronts, marks] using hfront
    rcases hfront with rfl | rfl
    · exact ⟨'b', hzero rfl rfl ▸ List.mem_cons_self, rfl⟩
    · exact ⟨'B', hzero rfl rfl ▸ List.mem_cons_self, rfl⟩

/-- A number that is too large is not read up to the suffix. -/
theorem not_isIntSuffix_of_large {n' : Nat} {rest' : Text} (hshows : radix.Shows mark digits n) (hrest : EndsDigits rest)
    (hlarge : maxEnumerator < n) (hread : magnitude (mark ++ (digits ++ rest)) = .ok n' rest') :
    ∃ c ∈ rest', isIntSuffix c = false := by
  obtain ⟨radix', shown, hannounced, hreads, rfl⟩ := hshows.exists_reads hrest
  have hradix' (hread : radix'.alternative (mark ++ (digits ++ rest)) = .ok n' rest') : False := by
    obtain ⟨digits', hreads', rfl, hle⟩ := alternative_eq_ok.1 hread
    rw [(hreads'.unique hreads).1] at hle
    exact absurd hlarge (Nat.not_lt.2 hle)
  rcases alternative_of_magnitude hread with hread | ⟨hmismatch, hread⟩
  · exact (hradix' (hannounced ▸ hread)).elim
  · by_cases hdecimal : radix' = .decimal
    · exact (hradix' (hdecimal ▸ hread)).elim
    · exact not_isIntSuffix_of_decimal hdecimal hreads hrest hlarge hread

end Radix

end EnumeratorValue

end HeaderOutline
