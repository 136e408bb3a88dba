import Mathlib
import HeaderOutline.Enumeration
/-!
# Numerals

The digits of a number in a base, behind any number of leading zeros and with letters in either case. Such digits denote
their number digit by digit, and digits of the base are the numeral of the number that they denote.
-/

namespace HeaderOutline.EnumeratorValue

variable {base n : Nat} {digits : Text} {c : Char}

/-- The number that digits denote, however large it is. -/
def number (base : Nat) (digits : Text) : Nat := digits.foldl (fun n c => n * base + digitValue c) 0

/-- A digit of the base. A letter stands for the same number in either case. -/
def IsDigit (base : Nat) (c : Char) : Prop := Text.isHexDigit c = true ∧ digitValue c < base

/-- The digits are those of the number in the base, behind leading zeros and in either case. -/
def IsNumeral (base : Nat) (digits : Text) (n : Nat) : Prop :=
  ∃ zeros, digits.map Char.toLower = List.replicate zeros '0' ++ Nat.toDigits base n

/-! ### Single digits -/

/-- What holds of the characters up to `f`, holds of every hexadecimal digit. -/
theorem forall_isHexDigit {motive : Char → Prop} (hall : ∀ code < 103, motive (Char.ofNat code))
    (hc : Text.isHexDigit c = true) : motive c := by
  have hcode : c.toNat < 103 := by
    simp only [Text.isHexDigit, Char.isDigit_iff_toNat, Char.le_def, UInt32.le_iff_toNat_le, Bool.or_eq_true,
      Bool.and_eq_true, decide_eq_true_eq, Char.toNat] at hc ⊢
    have hnine : '9'.val.toNat = 57 := rfl
    have hupper : 'F'.val.toNat = 70 := rfl
    have hlower : 'f'.val.toNat = 102 := rfl
    omega
  have hchar := hall c.toNat hcode
  rwa [Char.ofNat_toNat] at hchar

theorem toLower_of_isHexDigit (hc : Text.isHexDigit c = true) : c.toLower = (digitValue c).digitChar :=
  forall_isHexDigit (motive := fun c => Text.isHexDigit c = true → c.toLower = (digitValue c).digitChar) (by decide) hc hc

theorem digitChar_of_lt (hn : n < 16) : Text.isHexDigit n.digitChar = true ∧ digitValue n.digitChar = n := by
  have hall : ∀ n < 16, Text.isHexDigit n.digitChar = true ∧ digitValue n.digitChar = n := by decide
  exact hall n hn

/-- What is a digit in lower case is the same digit as it stands. -/
theorem isHexDigit_of_toLower (hc : Text.isHexDigit c.toLower = true) :
    Text.isHexDigit c = true ∧ digitValue c.toLower = digitValue c := by
  by_cases hupper : c.isUpper = true
  · have hall : ∀ code < 91, Text.isHexDigit (Char.ofNat code).toLower = true → Text.isHexDigit (Char.ofNat code) = true ∧
        digitValue (Char.ofNat code).toLower = digitValue (Char.ofNat code) := by decide
    have hcode : c.toNat < 91 := by
      have hZ : 'Z'.val.toNat = 90 := rfl
      simp only [Char.isUpper, decide_eq_true_eq, UInt32.le_iff_toNat_le, ge_iff_le] at hupper
      exact Nat.lt_succ_of_le (hZ ▸ hupper.2)
    have hchar := hall c.toNat hcode
    rw [Char.ofNat_toNat] at hchar
    exact hchar hc
  · rw [Char.toLower_eq_of_not_isUpper hupper] at hc ⊢
    exact ⟨hc, rfl⟩

theorem isDigit_of_toLower (hbase : base ≤ 16) (hn : n < base) (hc : c.toLower = n.digitChar) : IsDigit base c ∧ digitValue c = n := by
  obtain ⟨hdigit, hvalue⟩ := digitChar_of_lt (Nat.lt_of_lt_of_le hn hbase)
  rw [← hc] at hdigit hvalue
  obtain ⟨hchar, heq⟩ := isHexDigit_of_toLower hdigit
  have hvalue : digitValue c = n := heq.symm.trans hvalue
  exact ⟨⟨hchar, by rw [hvalue]; exact hn⟩, hvalue⟩

/-! ### Numbers -/

theorem number_append (base : Nat) (front back : Text) :
    number base (front ++ back) = back.foldl (fun n c => n * base + digitValue c) (number base front) := List.foldl_append

theorem number_append_singleton (base : Nat) (digits : Text) (c : Char) :
    number base (digits ++ [c]) = number base digits * base + digitValue c := number_append base digits [c]

theorem number_singleton (base : Nat) (c : Char) : number base [c] = digitValue c := by
  rw [number, List.foldl_cons, List.foldl_nil, Nat.zero_mul, Nat.zero_add]

theorem number_zeros_append (base zeros : Nat) (digits : Text) :
    number base (List.replicate zeros '0' ++ digits) = number base digits := by
  have hzero : digitValue '0' = 0 := rfl
  have hzeros : number base (List.replicate zeros '0') = 0 := by
    induction zeros with
    | zero => rfl
    | succ zeros ih => rw [List.replicate_succ', number_append_singleton, ih, hzero, Nat.zero_mul]
  rw [number_append, hzeros, number]

/-- More digits make no smaller number, and a larger base neither. -/
theorem foldl_digits_mono {base base' : Nat} (hbase : base ≤ base') {n n' : Nat} (hn : n ≤ n') (digits : Text) :
    digits.foldl (fun n c => n * base + digitValue c) n ≤ digits.foldl (fun n c => n * base' + digitValue c) n' := by
  induction digits generalizing n n' with
  | nil => exact hn
  | cons c digits ih => exact ih (Nat.add_le_add_right (Nat.mul_le_mul hn hbase) _)

theorem number_le_append (hbase : 0 < base) (front back : Text) : number base front ≤ number base (front ++ back) := by
  rw [number_append]
  generalize number base front = n
  induction back generalizing n with
  | nil => exact Nat.le_refl n
  | cons c back ih =>
    exact Nat.le_trans (Nat.le_trans (Nat.le_mul_of_pos_right n hbase) (Nat.le_add_right _ _)) (ih _)

theorem exists_of_mem_toDigits (hbase : 1 < base) (hc : c ∈ Nat.toDigits base n) : ∃ d < base, c = d.digitChar := by
  induction n using Nat.strong_induction_on with
  | _ n ih =>
    by_cases hn : n < base
    · rw [Nat.toDigits_of_lt_base hn] at hc
      exact ⟨n, hn, List.mem_singleton.1 hc⟩
    · have hn : base ≤ n := Nat.le_of_not_lt hn
      rw [Nat.toDigits_of_base_le hbase hn] at hc
      rcases List.mem_append.1 hc with hc | hc
      · exact ih _ (Nat.div_lt_self (by omega) hbase) hc
      · exact ⟨n % base, Nat.mod_lt n (by omega), List.mem_singleton.1 hc⟩

theorem number_toDigits (hlow : 1 < base) (hhigh : base ≤ 16) (n : Nat) : number base (Nat.toDigits base n) = n := by
  induction n using Nat.strong_induction_on with
  | _ n ih =>
    by_cases hn : n < base
    · rw [Nat.toDigits_of_lt_base hn, number_singleton]
      exact (digitChar_of_lt (Nat.lt_of_lt_of_le hn hhigh)).2
    · have hn : base ≤ n := Nat.le_of_not_lt hn
      have hmod : n % base < base := Nat.mod_lt n (by omega)
      rw [Nat.toDigits_of_base_le hlow hn, number_append_singleton, ih _ (Nat.div_lt_self (by omega) hlow),
        (digitChar_of_lt (Nat.lt_of_lt_of_le hmod hhigh)).2, Nat.div_add_mod']

theorem number_map_toLower (hdigits : ∀ c ∈ digits, Text.isHexDigit c.toLower = true) :
    number base (digits.map Char.toLower) = number base digits := by
  rw [number, number, List.foldl_map]
  refine List.foldl_ext _ _ _ fun n c hc => ?_
  rw [(isHexDigit_of_toLower (hdigits c hc)).2]

namespace IsNumeral

variable (hlow : 1 < base) (hhigh : base ≤ 16)

include hlow in
theorem exists_digit (hdigits : IsNumeral base digits n) (hc : c ∈ digits) : ∃ d < base, c.toLower = d.digitChar := by
  obtain ⟨zeros, hdigits⟩ := hdigits
  have hmem : c.toLower ∈ List.replicate zeros '0' ++ Nat.toDigits base n := hdigits ▸ List.mem_map_of_mem hc
  rcases List.mem_append.1 hmem with hzero | hdigit
  · exact ⟨0, by omega, List.eq_of_mem_replicate hzero⟩
  · exact exists_of_mem_toDigits hlow hdigit

include hlow hhigh

theorem isDigit (hdigits : IsNumeral base digits n) : ∀ c ∈ digits, IsDigit base c := by
  intro c hc
  obtain ⟨d, hd, hlower⟩ := hdigits.exists_digit hlow hc
  exact (isDigit_of_toLower hhigh hd hlower).1

theorem number_eq (hdigits : IsNumeral base digits n) : number base digits = n := by
  have hlower : ∀ c ∈ digits, Text.isHexDigit c.toLower = true := by
    intro c hc
    obtain ⟨d, hd, hlower⟩ := hdigits.exists_digit hlow hc
    rw [hlower]
    exact (digitChar_of_lt (Nat.lt_of_lt_of_le hd hhigh)).1
  obtain ⟨zeros, hdigits⟩ := hdigits
  rw [← number_map_toLower hlower, hdigits, number_zeros_append, number_toDigits hlow hhigh]

omit hlow hhigh

theorem ne_nil (hdigits : IsNumeral base digits n) : digits ≠ [] := by
  rintro rfl
  obtain ⟨zeros, hdigits⟩ := hdigits
  exact Nat.toDigits_ne_nil (List.append_eq_nil_iff.1 hdigits.symm).2

end IsNumeral

/-- Digits of the base are the numeral of the number that they denote. -/
theorem isNumeral_number (hlow : 1 < base) (hne : digits ≠ []) (hdigits : ∀ c ∈ digits, IsDigit base c) :
    IsNumeral base digits (number base digits) := by
  induction digits using List.reverseRecOn with
  | nil => exact absurd rfl hne
  | append_singleton digits c ih =>
    obtain ⟨hchar, hlt⟩ := hdigits c (List.mem_append_right _ List.mem_cons_self)
    rw [number_append_singleton]
    cases digits with
    | nil =>
      refine ⟨0, ?_⟩
      have hnone : number base [] = 0 := rfl
      rw [hnone, Nat.zero_mul, Nat.zero_add, Nat.toDigits_of_lt_base hlt, ← toLower_of_isHexDigit hchar]
      rfl
    | cons first digits =>
      obtain ⟨zeros, hfront⟩ := ih (List.cons_ne_nil _ _) fun d hd => hdigits d (List.mem_append_left _ hd)
      rw [IsNumeral, List.map_append, hfront, List.map_singleton, toLower_of_isHexDigit hchar]
      by_cases hzero : number base (first :: digits) = 0
      · -- The digits in front are zeros, and the last of them is one more in front of this digit.
        refine ⟨zeros + 1, ?_⟩
        rw [hzero, Nat.zero_mul, Nat.zero_add, Nat.toDigits_zero, Nat.toDigits_of_lt_base hlt, List.replicate_succ']
      · refine ⟨zeros, ?_⟩
        rw [Nat.mul_comm, ← Nat.toDigits_append_toDigits hlow (Nat.pos_of_ne_zero hzero) hlt, Nat.toDigits_of_lt_base hlt,
          List.append_assoc]

end HeaderOutline.EnumeratorValue
