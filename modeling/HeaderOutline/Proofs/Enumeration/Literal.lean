import HeaderOutline.Proofs.Enumeration.Radix
import HeaderOutline.Proofs.Json.Writer
/-!
# Integer literals

What an integer literal of an enumerator is, with the sign in front of it and the apostrophes between its digits. Every
literal is read as its number if that is not too large. What else is read as a number has apostrophes that do not stand
between digits, or begins like an octal number and goes on with a digit that is not octal.
-/

namespace HeaderOutline.EnumeratorValue

open HeaderOutline.Parser

/-- The digits with a single apostrophe between some of them. -/
inductive Punctuated : (digits spelled : Text) → Prop where
  | single (c : Char) : Punctuated [c] [c]
  | next (c : Char) {digits spelled : Text} (htail : Punctuated digits spelled) : Punctuated (c :: digits) (c :: spelled)
  | apart (c : Char) {digits spelled : Text} (htail : Punctuated digits spelled) :
      Punctuated (c :: digits) (c :: '\'' :: spelled)

/-- The parts of an integer literal that may have a minus sign in front of it. -/
structure Literal where
  /-- What stands behind the minus sign, if there is one. -/
  blanks? : Option Text
  radix : Radix
  mark : Text
  digits : Text
  suffix : Text

namespace Literal

/-- A minus sign with blanks behind it, or nothing. -/
def sign (blanks? : Option Text) : Text := blanks?.elim [] ('-' :: ·)

def signed (blanks? : Option Text) (n : Nat) : Int := if blanks?.isSome then -n else n

/-- The literal with its digits written in some way. -/
def text (literal : Literal) (spelled : Text) : Text :=
  sign literal.blanks? ++ (literal.mark ++ (spelled ++ literal.suffix))

/-- The number that the literal denotes if its digits denote `n`. -/
def value (literal : Literal) (n : Nat) : Int := signed literal.blanks? n

/-- The parts are such parts, and the digits are a numeral of `n` in the base. -/
structure IsWritten (literal : Literal) (n : Nat) : Prop where
  blanks : ∀ blanks ∈ literal.blanks?, ∀ c ∈ blanks, c = ' ' ∨ c = '\t'
  mark : literal.mark ∈ literal.radix.marks
  digits : IsNumeral literal.radix.base literal.digits n
  suffix : ∀ c ∈ literal.suffix, c ∈ "uUlL".toList

end Literal

/-- The text is an integer literal, possibly behind a minus sign, and denotes the value. -/
def IsLiteral (text : Text) (value : Int) : Prop :=
  ∃ (literal : Literal) (n : Nat) (spelled : Text), literal.IsWritten n ∧ literal.radix.Begins literal.digits ∧
    Punctuated literal.digits spelled ∧ text = literal.text spelled ∧ value = literal.value n

variable {input rest text digits spelled : Text} {value : Int} {n : Nat}

/-! ### Signs and suffixes -/

theorem isIntSuffix_iff {c : Char} : isIntSuffix c = true ↔ c ∈ "uUlL".toList := by simp [isIntSuffix, or_assoc]

theorem isBlank_iff {c : Char} : (c == ' ' || c == '\t') = true ↔ c = ' ' ∨ c = '\t' := by simp

/-- The text begins with a digit, and not with a sign or a blank. -/
def StartsDigit (text : Text) : Prop := ∃ c tail, text = c :: tail ∧ Text.isHexDigit c = true

theorem Radix.Shows.startsDigit {radix : Radix} {mark : Text} (hshows : radix.Shows mark digits n) (rest : Text) :
    StartsDigit (mark ++ (digits ++ rest)) := by
  rcases Radix.mark_cases hshows.mark with rfl | ⟨c, -, rfl⟩
  · obtain ⟨first, tail, rfl⟩ := List.exists_cons_of_ne_nil hshows.digits.ne_nil
    have hfirst := Radix.isDigit_of_isNumeral hshows.digits first List.mem_cons_self
    exact ⟨first, tail ++ rest, rfl, Radix.isHexDigit_of_isDigit hfirst⟩
  · exact ⟨'0', c :: (digits ++ rest), rfl, rfl⟩

/-- A sign is passed over, and what follows has the number and the suffix. -/
theorem intLiteral_sign {blanks? : Option Text} {unsigned : Text} (hblanks : ∀ blanks ∈ blanks?, ∀ c ∈ blanks, c = ' ' ∨ c = '\t')
    (hunsigned : StartsDigit unsigned) : intLiteral (Literal.sign blanks? ++ unsigned) = (do
      let n ← magnitude
      let _ ← Parser.takeWhile isIntSuffix
      pure (Literal.signed blanks? n)) unsigned := by
  obtain ⟨c, tail, rfl, hc⟩ := hunsigned
  have hsign : opt (do
      let _ ← char '-'
      blanks0) (Literal.sign blanks? ++ c :: tail) = .ok blanks? (c :: tail) := by
    cases blanks? with
    | none =>
      refine opt_of_mismatch (Mismatches.bind (char_of_ne ?_))
      rintro ⟨⟩
      revert hc
      decide
    | some blanks =>
      refine opt_of_ok ((bind_of_ok (char_cons '-' _)).trans (takeWhile_eq_ok.2 ⟨rfl, ?_, ?_⟩))
      · exact fun c hc => isBlank_iff.2 (hblanks blanks rfl c hc)
      · rintro _ ⟨⟩
        refine Bool.eq_false_iff.2 fun hblank => ?_
        rcases isBlank_iff.1 hblank with rfl | rfl <;> revert hc <;> decide
  rw [intLiteral, bind_of_ok hsign]
  rfl

/-- A literal is read from its sign on, and only the suffix may stand behind its digits. -/
theorem intLiteral_eq_ok : intLiteral input = .ok value [] ↔ ∃ (blanks? : Option Text) (unsigned suffix : Text) (n : Nat),
    (∀ blanks ∈ blanks?, ∀ c ∈ blanks, c = ' ' ∨ c = '\t') ∧ input = Literal.sign blanks? ++ unsigned ∧
    magnitude unsigned = .ok n suffix ∧ (∀ c ∈ suffix, isIntSuffix c = true) ∧ value = Literal.signed blanks? n := by
  constructor
  · intro hread
    obtain ⟨blanks?, unsigned, hsign, hread⟩ := bind_eq_ok.1 hread
    obtain ⟨n, suffix, hmagnitude, hread⟩ := bind_eq_ok.1 hread
    obtain ⟨letters, behind, hsuffix, hread⟩ := bind_eq_ok.1 hread
    cases hread
    obtain ⟨rfl, hletters, -⟩ := takeWhile_eq_ok.1 hsuffix
    rw [List.append_nil] at hmagnitude
    rcases opt_eq_ok.1 hsign with ⟨blanks, rfl, hminus⟩ | ⟨rfl, rfl, -⟩
    · obtain ⟨_, mid, hminus, hblanks⟩ := bind_eq_ok.1 hminus
      obtain ⟨-, rfl⟩ := char_eq_ok.1 hminus
      obtain ⟨rfl, hblanks, -⟩ := takeWhile_eq_ok.1 hblanks
      refine ⟨some blanks, unsigned, _, n, ?_, rfl, hmagnitude, hletters, rfl⟩
      rintro _ ⟨⟩ c hc
      exact isBlank_iff.1 (hblanks c hc)
    · exact ⟨none, unsigned, _, n, by simp, rfl, hmagnitude, hletters, rfl⟩
  · rintro ⟨blanks?, unsigned, suffix, n, hblanks, rfl, hmagnitude, hsuffix, rfl⟩
    have hunsigned : StartsDigit unsigned := by
      obtain ⟨-, radix, mark, digits, hshows, rfl⟩ := Radix.exists_shows_of_magnitude hmagnitude
      exact hshows.startsDigit suffix
    have hletters : Parser.takeWhile isIntSuffix suffix = .ok suffix [] :=
      takeWhile_eq_ok.2 ⟨(List.append_nil suffix).symm, hsuffix, by simp⟩
    rw [intLiteral_sign hblanks hunsigned, bind_of_ok hmagnitude, bind_of_ok hletters]
    rfl

theorem ofExpression_eq_int {expression : Text} :
    ofExpression expression = .int value ↔ intLiteral (expression.filter (· != '\'')) = .ok value [] := by
  unfold ofExpression
  split
  · next found hread => 
    rw [hread]
    simp
  · next hnone =>
    constructor
    · intro hread
      cases hread
    · exact fun hread => absurd hread (hnone value)

theorem eq_of_ofExpression {expression kept : Text} (hread : ofExpression expression = .text kept) : kept = expression := by
  unfold ofExpression at hread
  split at hread <;> cases hread
  rfl

/-! ### Apostrophes -/

theorem filter_of_ne {run : Text} (hrun : ∀ c ∈ run, c ≠ '\'') : run.filter (· != '\'') = run :=
  List.filter_eq_self.2 fun c hc => bne_iff_ne.2 (hrun c hc)

theorem IsNumeral.ne_apostrophe {radix : Radix} (hdigits : IsNumeral radix.base digits n) : ∀ c ∈ digits, c ≠ '\'' := by
  rintro c hc rfl
  have hdigit := Radix.isHexDigit_of_isDigit (Radix.isDigit_of_isNumeral hdigits _ hc)
  revert hdigit
  decide

namespace Punctuated

theorem filter_eq (hspelled : Punctuated digits spelled) (hdigits : ∀ c ∈ digits, c ≠ '\'') :
    spelled.filter (· != '\'') = digits := by
  induction hspelled with
  | single c => exact filter_of_ne hdigits
  | next c htail ih =>
    obtain ⟨hc, htail⟩ := List.forall_mem_cons.1 hdigits
    rw [List.filter_cons, if_pos (bne_iff_ne.2 hc), ih htail]
  | apart c htail ih =>
    obtain ⟨hc, htail⟩ := List.forall_mem_cons.1 hdigits
    rw [List.filter_cons, if_pos (bne_iff_ne.2 hc), List.filter_cons, if_neg (by decide), ih htail]

theorem refl (hne : digits ≠ []) : Punctuated digits digits := by
  induction digits with
  | nil => exact absurd rfl hne
  | cons c digits ih =>
    cases digits with
    | nil => exact .single c
    | cons d digits => exact .next c (ih (List.cons_ne_nil d digits))

/-- The first digit is written first. -/
theorem head?_eq (hspelled : Punctuated digits spelled) : spelled.head? = digits.head? := by
  cases hspelled <;> rfl

end Punctuated

namespace Literal

variable {literal : Literal}

/-- No apostrophe stands outside of the digits. -/
theorem IsWritten.filter_text (hwritten : literal.IsWritten n) (spelled : Text) :
    (literal.text spelled).filter (· != '\'') = literal.text (spelled.filter (· != '\'')) := by
  obtain ⟨blanks?, radix, mark, digits, suffix⟩ := literal
  obtain ⟨hblanks, hmark, -, hsuffix⟩ := hwritten
  have hsign : ∀ c ∈ sign blanks?, c ≠ '\'' := by
    cases blanks? with
    | none => exact List.forall_mem_nil _
    | some blanks =>
      refine List.forall_mem_cons.2 ⟨by decide, fun c hc => ?_⟩
      rcases hblanks blanks rfl c hc with rfl | rfl <;> decide
  have hmark : ∀ c ∈ mark, c ≠ '\'' := by
    rcases Radix.mark_cases hmark with rfl | ⟨c, hc, rfl⟩
    · exact List.forall_mem_nil _
    · refine List.forall_mem_cons.2 ⟨by decide, List.forall_mem_singleton.2 ?_⟩
      rintro rfl
      revert hc
      decide
  have hsuffix : ∀ c ∈ suffix, c ≠ '\'' := by
    rintro c hc rfl
    have hletter := hsuffix _ hc
    revert hletter
    decide
  simp only [text, List.filter_append]
  rw [filter_of_ne hsign, filter_of_ne hmark, filter_of_ne hsuffix]

theorem IsWritten.endsDigits (hwritten : literal.IsWritten n) : Radix.EndsDigits literal.suffix :=
  fun c hc => isIntSuffix_iff.2 (hwritten.suffix c (List.mem_of_mem_head? hc))

/-- The literal as the reading sees it. -/
theorem IsWritten.shows (hwritten : literal.IsWritten n) (hbegins : literal.radix.BeginsReading literal.digits) :
    literal.radix.Shows literal.mark literal.digits n := ⟨hwritten.mark, hbegins, hwritten.digits⟩

theorem IsWritten.intLiteral_text (hwritten : literal.IsWritten n) (hbegins : literal.radix.BeginsReading literal.digits)
    (hle : n ≤ maxEnumerator) : intLiteral (literal.text literal.digits) = .ok (literal.value n) [] :=
  intLiteral_eq_ok.2 ⟨literal.blanks?, _, literal.suffix, n, hwritten.blanks, rfl,
    Radix.magnitude_of_shows (hwritten.shows hbegins) hwritten.endsDigits hle,
    fun c hc => isIntSuffix_iff.2 (hwritten.suffix c hc), rfl⟩

/-- What is read as a number is a literal as the reading has it. -/
theorem exists_of_intLiteral (hread : intLiteral input = .ok value []) : ∃ (literal : Literal) (n : Nat),
    literal.IsWritten n ∧ literal.radix.BeginsReading literal.digits ∧ n ≤ maxEnumerator ∧
    input = literal.text literal.digits ∧ value = literal.value n := by
  obtain ⟨blanks?, _, suffix, n, hblanks, rfl, hmagnitude, hsuffix, rfl⟩ := intLiteral_eq_ok.1 hread
  obtain ⟨hle, radix, mark, digits, ⟨hmark, hbegins, hdigits⟩, rfl⟩ := Radix.exists_shows_of_magnitude hmagnitude
  exact ⟨⟨blanks?, radix, mark, digits, suffix⟩, n, ⟨hblanks, hmark, hdigits, fun c hc => isIntSuffix_iff.1 (hsuffix c hc)⟩,
    hbegins, hle, rfl, rfl⟩

theorem IsWritten.intLiteral_text_of_large (hwritten : literal.IsWritten n)
    (hbegins : literal.radix.BeginsReading literal.digits) (hlarge : maxEnumerator < n) :
    intLiteral (literal.text literal.digits) ≠ .ok value [] := by
  intro hread
  rw [text, intLiteral_sign hwritten.blanks ((hwritten.shows hbegins).startsDigit _)] at hread
  obtain ⟨n', suffix, hmagnitude, hread⟩ := bind_eq_ok.1 hread
  obtain ⟨letters, behind, hletters, hread⟩ := bind_eq_ok.1 hread
  cases hread
  obtain ⟨rfl, hletters, -⟩ := takeWhile_eq_ok.1 hletters
  rw [List.append_nil] at hmagnitude
  obtain ⟨c, hc, hsuffix⟩ := Radix.not_isIntSuffix_of_large (hwritten.shows hbegins) hwritten.endsDigits hlarge hmagnitude
  rw [hletters c hc] at hsuffix
  cases hsuffix

end Literal

/-- What an integer literal is once its apostrophes are deleted. -/
theorem IsLiteral.exists_filter_eq (hliteral : IsLiteral text value) : ∃ (literal : Literal) (n : Nat),
    literal.IsWritten n ∧ literal.radix.Begins literal.digits ∧ text.filter (· != '\'') = literal.text literal.digits ∧
    value = literal.value n := by
  obtain ⟨literal, n, spelled, hwritten, hbegins, hspelled, rfl, hvalue⟩ := hliteral
  refine ⟨literal, n, hwritten, hbegins, ?_, hvalue⟩
  rw [hwritten.filter_text, hspelled.filter_eq hwritten.digits.ne_apostrophe]

/-- An integer literal that is read as a number is read as the number that it denotes. -/
theorem IsLiteral.eq_of_ofExpression {found : Int} (hliteral : IsLiteral text value) (hread : ofExpression text = .int found) :
    found = value := by
  obtain ⟨literal, n, hwritten, hbegins, heq, rfl⟩ := hliteral.exists_filter_eq
  rw [ofExpression_eq_int, heq] at hread
  rcases Nat.lt_or_ge maxEnumerator n with hlarge | hle
  · exact absurd hread (hwritten.intLiteral_text_of_large (.inl hbegins) hlarge)
  · rw [hwritten.intLiteral_text (.inl hbegins) hle] at hread
    cases hread
    rfl

theorem IsLiteral.head_ne_apostrophe (hliteral : IsLiteral text value) : text.head? ≠ some '\'' := by
  obtain ⟨⟨blanks?, radix, mark, digits, suffix⟩, n, spelled, ⟨-, hmark, hdigits, -⟩, -, hspelled, rfl, -⟩ := hliteral
  cases blanks? with
  | some blanks => exact fun hhead => absurd (Option.some.inj hhead) (by decide)
  | none =>
    rcases Radix.mark_cases hmark with hmark | ⟨c, -, hmark⟩
    · have hhead : spelled.head? ≠ some '\'' := by
        rw [hspelled.head?_eq]
        exact fun hhead => hdigits.ne_apostrophe _ (List.mem_of_mem_head? hhead) rfl
      have hmark : mark = [] := hmark
      subst hmark
      cases hspelled <;> exact hhead
    · have hmark : mark = ['0', c] := hmark
      subst hmark
      exact fun hhead => absurd (Option.some.inj hhead) (by decide)

/-- An expression is read as a number exactly if it is an integer literal in range once its apostrophes are deleted, where
decimal digits may also begin with a zero in front of an 8 or a 9. Everything else is kept as it stands. So what is read
as a number either is a literal with this value, or is no literal at all and has an apostrophe or begins with such a
zero. -/
theorem ofExpression_number (expression : Text) :
    (∀ value, ofExpression expression = .int value ↔ ∃ (literal : Literal) (n : Nat), literal.IsWritten n ∧
      (literal.radix.Begins literal.digits ∨ literal.radix = .decimal ∧ Radix.MisleadingZero literal.digits) ∧
      n ≤ maxEnumerator ∧ expression.filter (· != '\'') = literal.text literal.digits ∧ value = literal.value n) ∧
    (∀ kept, ofExpression expression = .text kept → kept = expression) ∧
    ∀ value, ofExpression expression = .int value → IsLiteral expression value ∨
      (∀ other, ¬IsLiteral expression other) ∧ ('\'' ∈ expression ∨
        ∃ (literal : Literal) (n : Nat), literal.IsWritten n ∧ literal.radix = .decimal ∧
          Radix.MisleadingZero literal.digits ∧ expression = literal.text literal.digits ∧ value = literal.value n) := by
  have hread (value : Int) : ofExpression expression = .int value ↔ ∃ (literal : Literal) (n : Nat), literal.IsWritten n ∧
      (literal.radix.Begins literal.digits ∨ literal.radix = .decimal ∧ Radix.MisleadingZero literal.digits) ∧
      n ≤ maxEnumerator ∧ expression.filter (· != '\'') = literal.text literal.digits ∧ value = literal.value n := by
    rw [ofExpression_eq_int]
    constructor
    · exact fun hread => Literal.exists_of_intLiteral hread
    · rintro ⟨literal, n, hwritten, hbegins, hle, heq, rfl⟩
      rw [heq]
      exact hwritten.intLiteral_text hbegins hle
  refine ⟨hread, fun _ => eq_of_ofExpression, fun value hvalue => ?_⟩
  by_cases hliteral : ∃ other, IsLiteral expression other
  · obtain ⟨other, hliteral⟩ := hliteral
    rw [hliteral.eq_of_ofExpression hvalue]
    exact .inl hliteral
  refine .inr ⟨fun other hother => hliteral ⟨other, hother⟩, ?_⟩
  obtain ⟨literal, n, hwritten, hbegins, -, heq, hshown⟩ := (hread value).1 hvalue
  by_cases hapostrophe : '\'' ∈ expression
  · exact .inl hapostrophe
  · rw [filter_of_ne fun c hc heq => hapostrophe (heq ▸ hc)] at heq
    rcases hbegins with hbegins | ⟨hdecimal, hzero⟩
    · refine absurd ⟨value, literal, n, literal.digits, hwritten, hbegins, ?_, heq, hshown⟩ hliteral
      exact .refl hwritten.digits.ne_nil
    · exact .inr ⟨literal, n, hwritten, hdecimal, hzero, heq, hshown⟩

/-- A character literal is read as the digit between its quotes, and is no integer literal. -/
theorem ofExpression_character_literal :
    ofExpression "'1'".toList = .int 1 ∧ ∀ value, ¬IsLiteral "'1'".toList value :=
  ⟨by decide +kernel, fun _ hliteral => hliteral.head_ne_apostrophe rfl⟩

/-! ### Literals in range -/

/-- How many zeros may stand in front of the digits of a number: none of a decimal one, and at least one of an octal one. -/
def Radix.AllowsZeros : Radix → Nat → Prop
  | .decimal, zeros => zeros = 0
  | .octal, zeros => 0 < zeros
  | _, _ => True

theorem eq_zero_of_toLower {c : Char} (hc : c.toLower = '0') : c = '0' := by
  obtain ⟨⟨hhex, -⟩, hvalue⟩ : IsDigit 8 c ∧ digitValue c = 0 := isDigit_of_toLower (by decide) (by decide) hc
  exact forall_isHexDigit (motive := fun c => digitValue c = 0 → Text.isHexDigit c = true → c = '0')
    (by decide) hhex hvalue hhex

/-- Digits with as many zeros as the base allows are read in it, and a single zero is read as an octal number. -/
theorem Radix.exists_begins {radix : Radix} {mark : Text} {zeros : Nat} (hmark : mark ∈ radix.marks)
    (hzeros : radix.AllowsZeros zeros)
    (hdigits : digits.map Char.toLower = List.replicate zeros '0' ++ Nat.toDigits radix.base n) :
    ∃ radix' : Radix, mark ∈ radix'.marks ∧ radix'.Begins digits ∧ IsNumeral radix'.base digits n := by
  cases radix with
  | decimal =>
    obtain rfl : zeros = 0 := hzeros
    rw [List.replicate_zero, List.nil_append] at hdigits
    rcases eq_or_ne n 0 with rfl | hn
    · obtain ⟨c, rfl, hc⟩ := List.map_eq_singleton_iff.1 hdigits
      obtain rfl := eq_zero_of_toLower hc
      exact ⟨.octal, hmark, rfl, 0, rfl⟩
    · refine ⟨.decimal, hmark, fun hhead => Json.head?_toDigits hn ?_, 0, hdigits⟩
      have hlower : (digits.map Char.toLower).head? = some '0' := by
        rw [List.head?_map, hhead]
        rfl
      rwa [hdigits] at hlower
  | octal =>
    obtain ⟨zeros, rfl⟩ := Nat.exists_eq_succ_of_ne_zero (Nat.pos_iff_ne_zero.1 hzeros)
    obtain ⟨c, tail, rfl, hc, -⟩ := List.map_eq_cons_iff.1 hdigits
    obtain rfl := eq_zero_of_toLower hc
    exact ⟨.octal, hmark, rfl, zeros + 1, hdigits⟩
  | hexadecimal => exact ⟨.hexadecimal, hmark, trivial, zeros, hdigits⟩
  | binary => exact ⟨.binary, hmark, trivial, zeros, hdigits⟩

/-- A literal with a number in range is read as this number, however it is written: in each base, with leading zeros, letters
in either case, apostrophes between the digits and a suffix. Only the least number is kept as it stands, since its
magnitude is out of range. -/
theorem ofExpression_inRange {radix : Radix} {mark blanks suffix : Text} {zeros : Nat} (hmark : mark ∈ radix.marks)
    (hzeros : radix.AllowsZeros zeros)
    (hdigits : digits.map Char.toLower = List.replicate zeros '0' ++ Nat.toDigits radix.base value.natAbs)
    (hspelled : Punctuated digits spelled) (hblanks : ∀ c ∈ blanks, c = ' ' ∨ c = '\t')
    (hsuffix : ∀ c ∈ suffix, c ∈ "uUlL".toList)
    (htext : text = (if value < 0 then '-' :: blanks else []) ++ (mark ++ (spelled ++ suffix)))
    (hlow : -2 ^ 63 ≤ value) (hhigh : value ≤ 2 ^ 63 - 1) :
    (value ≠ -2 ^ 63 → ofExpression text = .int value) ∧ (value = -2 ^ 63 → ofExpression text = .text text) := by
  obtain ⟨radix', hmark, hbegins, hnumeral⟩ := Radix.exists_begins hmark hzeros hdigits
  let literal : Literal := ⟨if value < 0 then some blanks else none, radix', mark, digits, suffix⟩
  have hwritten : literal.IsWritten value.natAbs := by
    refine ⟨fun found hfound => ?_, hmark, hnumeral, hsuffix⟩
    obtain ⟨-, heq⟩ := Option.ite_none_right_eq_some.1 hfound
    cases heq
    exact hblanks
  have hvalue : literal.value value.natAbs = value := by
    rcases lt_or_ge value 0 with hneg | hpos
    · rw [Literal.value, Literal.signed, if_pos (by simp [literal, hneg]), Int.ofNat_natAbs_of_nonpos hneg.le, Int.neg_neg]
    · rw [Literal.value, Literal.signed, if_neg (by simp [literal, hpos]), Int.natAbs_of_nonneg hpos]
  have hfilter : text.filter (· != '\'') = literal.text literal.digits := by
    have htext : text = literal.text spelled := by
      by_cases hneg : value < 0 <;> simp only [htext, literal, Literal.text, Literal.sign, hneg, if_true, if_false] <;> rfl
    rw [htext, hwritten.filter_text, hspelled.filter_eq hnumeral.ne_apostrophe]
  have hlimit : maxEnumerator = 2 ^ 63 - 1 := rfl
  constructor
  · intro hne
    rw [ofExpression_eq_int, hfilter, hwritten.intLiteral_text (.inl hbegins) (by omega), hvalue]
  · intro hleast
    cases hread : ofExpression text with
    | int found =>
      rw [ofExpression_eq_int, hfilter] at hread
      exact absurd hread (hwritten.intLiteral_text_of_large (.inl hbegins) (by omega))
    | text kept => rw [eq_of_ofExpression hread]

theorem ofExpression_inRange_hexadecimal :
    ofExpression "- \t0X0'7FffffffFFFFFFFFuLL".toList = .int (-(2 ^ 63 - 1)) := by
  have hmark : "0X".toList ∈ Radix.hexadecimal.marks := by decide
  have hdigits : "07FffffffFFFFFFFF".toList.map Char.toLower =
      List.replicate 1 '0' ++ Nat.toDigits Radix.hexadecimal.base (-(2 ^ 63 - 1) : Int).natAbs := by decide +kernel
  have hspelled : Punctuated "07FffffffFFFFFFFF".toList "0'7FffffffFFFFFFFF".toList :=
    .apart '0' (.refl (List.cons_ne_nil _ _))
  have hblanks : ∀ c ∈ " \t".toList, c = ' ' ∨ c = '\t' := by simp
  have hsuffix : ∀ c ∈ "uLL".toList, c ∈ "uUlL".toList := by simp
  exact (ofExpression_inRange hmark trivial hdigits hspelled hblanks hsuffix rfl (by omega) (by omega)).1 (by omega)

/-- The least number in range is not read as a number. -/
theorem ofExpression_least :
    ofExpression "-9223372036854775808".toList = .text "-9223372036854775808".toList := by decide +kernel

end HeaderOutline.EnumeratorValue
