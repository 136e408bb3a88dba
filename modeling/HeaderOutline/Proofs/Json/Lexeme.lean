import HeaderOutline.Json.Reader
import HeaderOutline.Proofs.Parser.Reading
/-!
# Strings and numbers of the JSON format

The reader reads a string or a number exactly where the format has one. A number has to end where it ends:
what follows it is no digit.
-/

namespace HeaderOutline

open HeaderOutline.Parser

namespace Json.Reader

variable {input rest : Text}

/-! ### Strings -/

theorem codeUnit_eq_ok {unit : Nat} :
    codeUnit input = .ok unit rest ↔ ∃ text, SpellsUnit unit text ∧ input = text ++ rest := by
  constructor
  · intro h
    simp only [codeUnit, bind_eq_ok, literal_eq_ok, satisfy_eq_ok] at h
    obtain ⟨_, _, ⟨rfl, rfl⟩, a, _, ⟨ha, rfl⟩, b, _, ⟨hb, rfl⟩, c, _, ⟨hc, rfl⟩, d, _, ⟨hd, rfl⟩, hunit⟩ := h
    cases hunit
    exact ⟨_, .digits (by simp [ha, hb, hc, hd]), rfl⟩
  · rintro ⟨_, @⟨a, b, c, d, hdigits⟩, rfl⟩
    simp only [List.forall_mem_cons] at hdigits
    obtain ⟨ha, hb, hc, hd, -⟩ := hdigits
    have hmark : literal "\\u" (['\\', 'u', a, b, c, d] ++ rest) = .ok ['\\', 'u'] (a :: b :: c :: d :: rest) :=
      literal_append "\\u" _
    rw [codeUnit, bind_of_ok hmark, bind_of_ok (satisfy_cons ha _), bind_of_ok (satisfy_cons hb _),
      bind_of_ok (satisfy_cons hc _), bind_of_ok (satisfy_cons hd _)]
    rfl


theorem shortEscape_eq_ok {c : Char} :
    shortEscape input = .ok c rest ↔ ∃ mark, escaped? mark = some c ∧ input = '\\' :: mark :: rest := by
  simp only [shortEscape, bind_eq_ok, char_eq_ok, filterMap_eq_ok, satisfy_eq_ok]
  constructor
  · rintro ⟨_, _, ⟨rfl, rfl⟩, mark, ⟨-, rfl⟩, hmark⟩
    exact ⟨mark, hmark, rfl⟩
  · rintro ⟨mark, hmark, rfl⟩
    exact ⟨_, _, ⟨rfl, rfl⟩, mark, ⟨trivial, rfl⟩, hmark⟩

/-- A code unit is no short escape. -/
theorem shortEscape_of_unit {unit : Nat} {text : Text} (hunit : SpellsUnit unit text) :
    Mismatches shortEscape (text ++ rest) := by
  obtain ⟨hdigits⟩ := hunit
  exact .bind_of_ok (char_cons '\\' _) (.filterMap_of_ok (satisfy_cons rfl _) rfl)

theorem plain_of_unit {unit : Nat} {text : Text} (hunit : SpellsUnit unit text) :
    Mismatches (satisfy isPlain) (text ++ rest) := by
  obtain ⟨hdigits⟩ := hunit
  exact satisfy_of_not (by rintro _ ⟨⟩; rfl)

theorem unicodeEscape_eq_ok {c : Char} : unicodeEscape input = .ok c rest ↔
    (∃ unit text, SpellsUnit unit text ∧ isHighSurrogate unit = false ∧ isLowSurrogate unit = false ∧
      c = Char.ofNat unit ∧ input = text ++ rest) ∨
    ∃ high low first second, SpellsUnit high first ∧ SpellsUnit low second ∧ isHighSurrogate high = true ∧
      isLowSurrogate low = true ∧ c = Char.ofNat (pairValue high low) ∧ input = first ++ second ++ rest := by
  simp only [unicodeEscape, bind_eq_ok, codeUnit_eq_ok]
  constructor
  · rintro ⟨unit, _, ⟨first, hfirst, rfl⟩, hok⟩
    split at hok
    · next hhigh =>
      obtain ⟨low, _, hlow, hc⟩ := bind_eq_ok.1 hok
      rw [filter_eq_ok, codeUnit_eq_ok] at hlow
      obtain ⟨⟨second, hsecond, rfl⟩, hlow⟩ := hlow
      cases hc
      exact .inr ⟨unit, low, first, second, hfirst, hsecond, hhigh, hlow, rfl, (List.append_assoc ..).symm⟩
    · next hhigh =>
      split at hok
      · cases hok
      · next hlow =>
        cases hok
        exact .inl ⟨unit, first, hfirst, Bool.eq_false_iff.2 hhigh, Bool.eq_false_iff.2 hlow, rfl, rfl⟩
  · rintro (⟨unit, text, hunit, hhigh, hlow, rfl, rfl⟩ | ⟨high, low, first, second, hfirst, hsecond, hhigh, hlow, rfl, rfl⟩)
    · refine ⟨unit, rest, ⟨text, hunit, rfl⟩, ?_⟩
      rw [hhigh, hlow]
      rfl
    · refine ⟨high, second ++ rest, ⟨first, hfirst, List.append_assoc ..⟩, ?_⟩
      have hsecond : codeUnit.filter isLowSurrogate (second ++ rest) = .ok low rest :=
        filter_of_ok (codeUnit_eq_ok.2 ⟨second, hsecond, rfl⟩) hlow
      rw [hhigh, if_pos rfl, bind_of_ok hsecond]
      rfl

theorem character_eq_ok {c : Char} : character input = .ok c rest ↔ ∃ text, SpellsChar c text ∧ input = text ++ rest := by
  constructor
  · intro hok
    obtain ⟨p, hp, hok⟩ := firstOf_eq_ok hok
    simp only [List.mem_cons, List.not_mem_nil, or_false] at hp
    rcases hp with rfl | rfl | rfl
    · obtain ⟨hc, rfl⟩ := satisfy_eq_ok.1 hok
      exact ⟨[c], .plain hc, rfl⟩
    · obtain ⟨mark, hmark, rfl⟩ := shortEscape_eq_ok.1 hok
      exact ⟨['\\', mark], .short hmark, rfl⟩
    · rcases unicodeEscape_eq_ok.1 hok with ⟨unit, text, hunit, hhigh, hlow, rfl, rfl⟩ |
        ⟨high, low, first, second, hfirst, hsecond, hhigh, hlow, rfl, rfl⟩
      · exact ⟨text, .unit hunit hhigh hlow, rfl⟩
      · exact ⟨first ++ second, .pair hfirst hsecond hhigh hlow, rfl⟩
  · rintro ⟨text, htext, rfl⟩
    cases htext with
    | plain hc => exact firstOf_of_ok (satisfy_cons hc rest)
    | @short mark c hmark =>
      have hplain : Mismatches (satisfy isPlain) (['\\', mark] ++ rest) := satisfy_of_not (by rintro _ ⟨⟩; rfl)
      rw [character, firstOf_of_mismatch hplain]
      exact firstOf_of_ok (shortEscape_eq_ok.2 ⟨mark, hmark, rfl⟩)
    | unit hunit hhigh hlow =>
      rw [character, firstOf_of_mismatch (plain_of_unit hunit), firstOf_of_mismatch (shortEscape_of_unit hunit)]
      exact firstOf_of_ok (unicodeEscape_eq_ok.2 (.inl ⟨_, text, hunit, hhigh, hlow, rfl, rfl⟩))
    | @pair high low first second hfirst hsecond hhigh hlow =>
      have hplain : Mismatches (satisfy isPlain) (first ++ (second ++ rest)) := plain_of_unit hfirst
      have hshort : Mismatches shortEscape (first ++ (second ++ rest)) := shortEscape_of_unit hfirst
      rw [← List.append_assoc] at hplain hshort
      rw [character, firstOf_of_mismatch hplain, firstOf_of_mismatch hshort]
      exact firstOf_of_ok (unicodeEscape_eq_ok.2 (.inr ⟨high, low, first, second, hfirst, hsecond, hhigh, hlow, rfl, rfl⟩))

theorem length_pos_of_spellsChar {c : Char} {text : Text} (htext : SpellsChar c text) : 0 < text.length := by
  have hunit : ∀ {unit : Nat} {text : Text}, SpellsUnit unit text → 0 < text.length := by
    rintro _ _ ⟨-⟩
    simp
  cases htext with
  | plain hc => simp
  | short hmark => simp
  | unit hunit' hhigh hlow => exact hunit hunit'
  | pair hfirst hsecond hhigh hlow =>
    have := hunit hfirst
    simp only [List.length_append]
    omega

theorem characters_append {value body : Text} (hbody : Spells value body) (rest : Text) :
    many character (body ++ '"' :: rest) = .ok value ('"' :: rest) := by
  induction hbody with
  | nil =>
    refine many_of_mismatch (.firstOf ?_)
    simp only [List.forall_mem_cons]
    refine ⟨satisfy_of_not (by rintro _ ⟨⟩; rfl), ?_, ?_, nofun⟩
    · exact .bind (char_of_ne (head?_cons_ne (by decide) rest))
    · exact .bind (.bind (literal_of_ne (rfl : "\\u".toList = '\\' :: ['u']) (head?_cons_ne (by decide) rest)))
  | @cons c s first others hc hs ih =>
    have hpos := length_pos_of_spellsChar hc
    have hread : character (first ++ (others ++ '"' :: rest)) = .ok c (others ++ '"' :: rest) :=
      character_eq_ok.2 ⟨first, hc, rfl⟩
    rw [List.append_assoc, many_of_ok hread (by simp only [List.length_append]; omega), ih]
    rfl

theorem spells_of_characters {value : Text} (hok : many character input = .ok value rest) :
    ∃ body, Spells value body ∧ input = body ++ rest := by
  fun_induction many character input generalizing value with
  | case1 input c mid hc _ ih =>
    obtain ⟨others, hothers, rfl⟩ := Outcome.map_eq_ok.1 hok
    obtain ⟨first, hfirst, rfl⟩ := character_eq_ok.1 hc
    obtain ⟨body, hbody, rfl⟩ := ih hothers
    exact ⟨first ++ body, .cons hfirst hbody, (List.append_assoc ..).symm⟩
  | case2 => cases hok
  | case3 input =>
    cases hok
    exact ⟨[], .nil, rfl⟩
  | case4 => cases hok

theorem string_eq_ok {value : Text} :
    string input = .ok value rest ↔ ∃ text, IsQuoted value text ∧ input = text ++ rest := by
  constructor
  · intro hok
    simp only [string, bind_eq_ok, char_eq_ok] at hok
    obtain ⟨_, _, ⟨rfl, rfl⟩, _, _, hmany, _, _, ⟨rfl, rfl⟩, hvalue⟩ := hok
    cases hvalue
    obtain ⟨body, hbody, rfl⟩ := spells_of_characters hmany
    exact ⟨_, ⟨body, rfl, hbody⟩, by simp⟩
  · rintro ⟨_, ⟨body, rfl, hbody⟩, rfl⟩
    have hbody := characters_append hbody rest
    rw [List.cons_append, List.append_assoc, List.singleton_append, string, bind_of_ok (char_cons '"' _),
      bind_of_ok hbody, bind_of_ok (char_cons '"' _)]
    rfl

/-! ### Numbers -/

/-- No number goes on here. -/
def EndsNumber (rest : Text) : Prop := ∀ c ∈ rest.head?, c.isDigit = false

theorem natural_append {n : Nat} {digits : Text} (hdigits : IsNatural n digits) (hrest : EndsNumber rest) :
    natural (digits ++ rest) = .ok n rest := by
  obtain ⟨c, tail, rfl⟩ := List.exists_cons_of_ne_nil hdigits.nonempty
  have hc := hdigits.isDigit c List.mem_cons_self
  have htail : ∀ d ∈ tail, d.isDigit = true := fun d hd => hdigits.isDigit d (List.mem_cons_of_mem c hd)
  have hend : rest.takeWhile Char.isDigit = [] ∧ rest.dropWhile Char.isDigit = rest := by
    cases rest with
    | nil => exact ⟨rfl, rfl⟩
    | cons d rest =>
      have hd : ¬ d.isDigit = true := Bool.eq_false_iff.1 (hrest d rfl)
      exact ⟨List.takeWhile_cons_of_neg hd, List.dropWhile_cons_of_neg hd⟩
  have hrun : takeWhile1 .digit Char.isDigit (c :: (tail ++ rest)) = .ok (c :: tail) rest := by
    rw [takeWhile1, if_pos hc, List.takeWhile_append_of_pos htail, List.dropWhile_append_of_pos htail, hend.1, hend.2,
      List.append_nil]
  have hzero : ((c :: tail).head? != some '0' || c :: tail == ['0']) = true := by
    have hzero := hdigits.noLeadingZero
    simp only [Bool.or_eq_true, bne_iff_ne, beq_iff_eq]
    exact Decidable.or_iff_not_imp_left.2 fun h => hzero (Decidable.not_not.1 h)
  rw [List.cons_append, natural, map_of_ok (filter_of_ok hrun hzero), hdigits.value]

theorem isNatural_of_natural {n : Nat} (hok : natural input = .ok n rest) :
    ∃ digits, IsNatural n digits ∧ input = digits ++ rest := by
  obtain ⟨digits, hdigits, hn⟩ := map_eq_ok.1 hok
  obtain ⟨hrun, hzero⟩ := filter_eq_ok.1 hdigits
  unfold takeWhile1 at hrun
  split at hrun
  · next c tail =>
    split at hrun
    · next hc =>
      cases hrun
      refine ⟨c :: tail.takeWhile Char.isDigit, ⟨List.cons_ne_nil _ _, ?_, ?_, hn⟩, ?_⟩
      · rintro d (_ | ⟨_, hd⟩)
        · exact hc
        · exact List.all_eq_true.1 List.all_takeWhile d hd
      · intro hhead
        simp only [Bool.or_eq_true, bne_iff_ne, beq_iff_eq] at hzero
        exact hzero.resolve_left fun hne => hne hhead
      · rw [List.cons_append, List.takeWhile_append_dropWhile]
    · cases hrun
  · cases hrun

theorem integer_append {n : Int} {text : Text} (htext : IsInteger n text) (hrest : EndsNumber rest) :
    integer (text ++ rest) = .ok n rest := by
  cases htext with
  | @natural n digits hdigits =>
    have hsign : Mismatches (char '-') (text ++ rest) := by
      obtain ⟨c, tail, rfl⟩ := List.exists_cons_of_ne_nil hdigits.nonempty
      have hc := hdigits.isDigit c List.mem_cons_self
      refine char_of_ne (head?_cons_ne ?_ _)
      rintro rfl
      exact absurd hc (by decide)
    rw [integer, bind_of_ok (opt_of_mismatch hsign), bind_of_ok (natural_append hdigits hrest)]
    rfl
  | @negative n digits hdigits =>
    rw [integer, List.cons_append, bind_of_ok (opt_of_ok (char_cons '-' _)), bind_of_ok (natural_append hdigits hrest)]
    rfl

theorem isInteger_of_integer {n : Int} (hok : integer input = .ok n rest) :
    ∃ text, IsInteger n text ∧ input = text ++ rest := by
  obtain ⟨sign, mid, hsign, hok⟩ := bind_eq_ok.1 hok
  obtain ⟨m, _, hm, hn⟩ := bind_eq_ok.1 hok
  cases hn
  obtain ⟨digits, hdigits, rfl⟩ := isNatural_of_natural hm
  rcases opt_eq_ok.1 hsign with ⟨c, rfl, hc⟩ | ⟨rfl, rfl, -⟩
  · obtain ⟨rfl, rfl⟩ := char_eq_ok.1 hc
    exact ⟨'-' :: digits, .negative hdigits, rfl⟩
  · exact ⟨digits, .natural hdigits, rfl⟩

end Json.Reader

end HeaderOutline
