import Mathlib.Data.List.DropRight
import HeaderOutline.Proofs.Lexeme
/-!
# White space at the ends of a text

Trimming takes off all white space at both ends and nothing else: what is cut off is blank, what stays begins and ends
with a character that is not, and no other character is lost. `trim_eq_trim_append_iff` says from this when a text may
be longer without any difference.
-/

namespace HeaderOutline.Text

variable {s t blank : Text}

/-- White space and nothing else. -/
def IsBlank (s : Text) : Prop := ∀ c ∈ s, isBlank c = true

instance (s : Text) : Decidable (IsBlank s) := inferInstanceAs (Decidable (∀ c ∈ s, _))

/-- The characters with the property `White_Space`. -/
def blanks : List Char :=
  ['\t', '\n', '\x0B', '\x0C', '\r', ' ', '\u0085', '\u00A0', '\u1680', '\u2000', '\u2001', '\u2002', '\u2003', '\u2004',
   '\u2005', '\u2006', '\u2007', '\u2008', '\u2009', '\u200A', '\u2028', '\u2029', '\u202F', '\u205F', '\u3000']

theorem mem_blanks {c : Char} (hc : isBlank c = true) : c ∈ blanks := by
  have hcode : c.toNat ∈ blanks.map Char.toNat := by
    have hcodes : blanks.map Char.toNat = List.range' 9 5 ++ [0x20, 0x85, 0xA0, 0x1680] ++ List.range' 0x2000 11 ++
      [0x2028, 0x2029, 0x202F, 0x205F, 0x3000] := rfl
    simp only [isBlank, Bool.or_eq_true, Bool.and_eq_true, decide_eq_true_eq, beq_iff_eq] at hc
    rw [hcodes]
    simp only [List.mem_append, List.mem_range'_1, List.mem_cons, List.not_mem_nil, or_false]
    omega
  obtain ⟨d, hd, heq⟩ := List.mem_map.1 hcode
  rwa [← Char.toNat_inj.1 heq]

theorem isBlank_of_isWordChar {c : Char} (hc : isWordChar c = true) : isBlank c = false := by
  have hwords : ∀ c ∈ blanks, isWordChar c = false := by decide +kernel
  refine Bool.eq_false_iff.2 fun hblank => ?_
  rw [hwords c (mem_blanks hblank)] at hc
  cases hc

theorem isBlank_append : IsBlank (s ++ t) ↔ IsBlank s ∧ IsBlank t := List.forall_mem_append

/-! ### Dropping a tail -/

theorem dropTail_append {property : Char → Bool} (ht : ∀ c ∈ t, property c = true) (s : Text) :
    dropTail property (s ++ t) = dropTail property s := by
  have hreverse : ∀ c ∈ t.reverse, property c = true := fun c hc => ht c (List.mem_reverse.1 hc)
  rw [dropTail, List.reverse_append, List.dropWhile_append_of_pos hreverse, dropTail]

theorem dropTail_append_cons {property : Char → Bool} {c : Char} (hc : property c = false) (s t : Text) :
    dropTail property (s ++ c :: t) = s ++ c :: dropTail property t := by
  have hdrop : (t.reverse ++ c :: s.reverse).dropWhile property = t.reverse.dropWhile property ++ c :: s.reverse := by
    rw [List.dropWhile_append, List.dropWhile_cons_of_neg (Bool.eq_false_iff.1 hc)]
    split
    · next hempty => rw [List.isEmpty_iff.1 hempty, List.nil_append]
    · rfl
  unfold dropTail
  rw [List.reverse_append, List.reverse_cons, List.append_assoc, List.singleton_append, hdrop, List.reverse_append,
    List.reverse_cons, List.reverse_reverse, List.append_assoc, List.singleton_append]

theorem exists_dropTail (property : Char → Bool) (s : Text) :
    ∃ tail, (∀ c ∈ tail, property c = true) ∧ s = dropTail property s ++ tail := by
  refine ⟨(s.reverse.takeWhile property).reverse, ?_, ?_⟩
  · intro c hc
    exact List.all_eq_true.1 List.all_takeWhile c (List.mem_reverse.1 hc)
  · rw [dropTail, ← List.reverse_append, List.takeWhile_append_dropWhile, List.reverse_reverse]

theorem dropTail_eq_rdropWhile (property : Char → Bool) (s : Text) : dropTail property s = s.rdropWhile property := rfl

theorem dropTail_of_getLast? {property : Char → Bool} (hs : ∀ c ∈ s.getLast?, property c = false) :
    dropTail property s = s := by
  rw [dropTail_eq_rdropWhile, List.rdropWhile_eq_self_iff]
  intro hne
  exact Bool.eq_false_iff.1 (hs _ (List.getLast?_eq_getLast_of_ne_nil hne))

theorem getLast?_dropTail (property : Char → Bool) (s : Text) : ∀ c ∈ (dropTail property s).getLast?, property c = false := by
  intro c hc
  obtain ⟨hne, rfl⟩ := List.mem_getLast?_eq_getLast hc
  exact Bool.eq_false_iff.2 (List.rdropWhile_last_not property s hne)

/-! ### Trimming -/

theorem trimEnd_append (hblank : IsBlank blank) (s : Text) : trimEnd (s ++ blank) = trimEnd s := dropTail_append hblank s

theorem trimStart_append_of_isBlank (hblank : IsBlank blank) (s : Text) : trimStart (blank ++ s) = trimStart s :=
  List.dropWhile_append_of_pos hblank

theorem trimStart_append_of_not_isBlank (hs : ¬IsBlank s) (t : Text) : trimStart (s ++ t) = trimStart s ++ t := by
  rw [trimStart, List.dropWhile_append, trimStart, if_neg]
  intro hempty
  rw [List.isEmpty_iff, List.dropWhile_eq_nil_iff] at hempty
  exact hs hempty

theorem trimStart_of_isBlank (hblank : IsBlank blank) : trimStart blank = [] := List.dropWhile_eq_nil_iff.2 hblank

theorem trim_blank_append (hblank : IsBlank blank) (s : Text) : trim (blank ++ s) = trim s := by
  rw [trim, trimStart_append_of_isBlank hblank, trim]

theorem trim_append_blank (hblank : IsBlank blank) (s : Text) : trim (s ++ blank) = trim s := by
  by_cases hs : IsBlank s
  · rw [trim_blank_append hs, trim, trim, trimStart_of_isBlank hblank, trimStart_of_isBlank hs]
  · rw [trim, trimStart_append_of_not_isBlank hs, trimEnd_append hblank, trim]

theorem trimEnd_append_of_not_isBlank (ht : ¬IsBlank t) (s : Text) : trimEnd (s ++ t) = s ++ trimEnd t := by
  have hreverse : ¬(t.reverse.dropWhile isBlank).isEmpty = true := by
    rw [List.isEmpty_iff, List.dropWhile_eq_nil_iff]
    intro hall
    exact ht fun c hc => hall c (List.mem_reverse.2 hc)
  unfold trimEnd dropTail
  rw [List.reverse_append, List.dropWhile_append, if_neg hreverse, List.reverse_append, List.reverse_reverse]

theorem isBlank_takeWhile (s : Text) : IsBlank (s.takeWhile isBlank) := List.all_eq_true.1 List.all_takeWhile

theorem takeWhile_append_trimStart (s : Text) : s.takeWhile isBlank ++ trimStart s = s := List.takeWhile_append_dropWhile

theorem trimStart_trimStart (s : Text) : trimStart (trimStart s) = trimStart s := List.dropWhile_idempotent isBlank s

theorem trimEnd_trimEnd (s : Text) : trimEnd (trimEnd s) = trimEnd s := List.rdropWhile_idempotent isBlank s

theorem trimEnd_of_append (s : Text) (hboth : trimEnd (s ++ t) = s ++ t) : trimEnd t = t := by
  rcases List.eq_nil_or_concat t with rfl | ⟨init, c, rfl⟩
  · rfl
  · refine dropTail_of_getLast? ?_
    have hlast := getLast?_dropTail isBlank (s ++ init.concat c)
    rw [← trimEnd, hboth, List.getLast?_append_of_ne_nil _ (by simp)] at hlast
    exact hlast

theorem trim_trimStart (s : Text) : trim (trimStart s) = trim s := by
  rw [← trim_blank_append (isBlank_takeWhile s), takeWhile_append_trimStart]

theorem exists_trimEnd (s : Text) : ∃ blank, IsBlank blank ∧ s = trimEnd s ++ blank := exists_dropTail isBlank s

theorem exists_trim (s : Text) : ∃ front back, IsBlank front ∧ IsBlank back ∧ s = front ++ trim s ++ back := by
  obtain ⟨back, hback, heq⟩ := exists_trimEnd (trimStart s)
  refine ⟨s.takeWhile isBlank, back, isBlank_takeWhile s, hback, ?_⟩
  calc s = s.takeWhile isBlank ++ trimStart s := (takeWhile_append_trimStart s).symm
    _ = s.takeWhile isBlank ++ (trimEnd (trimStart s) ++ back) := by rw [← heq]
    _ = s.takeWhile isBlank ++ trim s ++ back := (List.append_assoc ..).symm

theorem trim_of_isBlank (hblank : IsBlank blank) : trim blank = [] := by
  rw [trim, trimStart_of_isBlank hblank]
  rfl

theorem trim_eq_nil_iff : trim s = [] ↔ IsBlank s := by
  constructor
  · intro hnil
    obtain ⟨front, back, hfront, hback, heq⟩ := exists_trim s
    rw [heq, hnil, List.append_nil, isBlank_append]
    exact ⟨hfront, hback⟩
  · exact trim_of_isBlank

theorem mem_of_mem_trim {c : Char} (hc : c ∈ trim s) : c ∈ s := by
  obtain ⟨front, back, -, -, heq⟩ := exists_trim s
  rw [heq]
  exact List.mem_append_left back (List.mem_append_right front hc)

theorem trim_trim (s : Text) : trim (trim s) = trim s := by
  obtain ⟨front, back, hfront, hback, heq⟩ := exists_trim s
  calc trim (trim s) = trim (front ++ trim s ++ back) := by rw [trim_append_blank hback, trim_blank_append hfront]
    _ = trim s := by rw [← heq]

theorem trim_of_ends (hhead : ∀ c ∈ s.head?, isBlank c = false) (hlast : ∀ c ∈ s.getLast?, isBlank c = false) : trim s = s := by
  have hstart : trimStart s = s := by
    cases s with
    | nil => rfl
    | cons c s => exact List.dropWhile_cons_of_neg (Bool.eq_false_iff.1 (hhead c rfl))
  rw [trim, hstart, trimEnd, dropTail_of_getLast? hlast]

theorem trimEnd_eq_nil_iff : trimEnd s = [] ↔ IsBlank s := List.rdropWhile_eq_nil_iff

theorem not_isBlank_trimStart (hs : ¬IsBlank s) : ¬IsBlank (trimStart s) := by
  intro hblank
  refine hs ?_
  rw [← takeWhile_append_trimStart s, isBlank_append]
  exact ⟨isBlank_takeWhile s, hblank⟩

theorem getLast?_trimStart (hs : ¬IsBlank s) : (trimStart s).getLast? = s.getLast? := by
  have hne : trimStart s ≠ [] := fun heq => not_isBlank_trimStart hs (heq ▸ List.forall_mem_nil _)
  conv => rhs; rw [← takeWhile_append_trimStart s, List.getLast?_append_of_ne_nil _ hne]

theorem getLast?_trim (hs : ¬IsBlank s) : (trim s).getLast? = (trimEnd s).getLast? := by
  have hne : trim s ≠ [] := fun heq => not_isBlank_trimStart hs (trimEnd_eq_nil_iff.1 heq)
  conv => rhs; rw [← takeWhile_append_trimStart s, trimEnd_append_of_not_isBlank (not_isBlank_trimStart hs)]
  exact (List.getLast?_append_of_ne_nil _ hne).symm

/-- No character but white space is lost. -/
theorem countP_trim (s : Text) : (trim s).countP (!isBlank ·) = s.countP (!isBlank ·) := by
  have hnone {blank : Text} (hblank : IsBlank blank) : blank.countP (!isBlank ·) = 0 :=
    List.countP_eq_zero.2 fun c hc => by simp [hblank c hc]
  obtain ⟨front, back, hfront, hback, heq⟩ := exists_trim s
  have hcount := congrArg (List.countP (!isBlank ·)) heq
  rw [List.countP_append, List.countP_append, hnone hfront, hnone hback] at hcount
  omega

/-- Behind a text, only white space makes no difference. -/
theorem trim_eq_trim_append_iff (s t : Text) : trim s = trim (s ++ t) ↔ IsBlank t := by
  constructor
  · intro heq
    have hcount := congrArg (List.countP (!isBlank ·)) heq
    rw [countP_trim, countP_trim, List.countP_append] at hcount
    have hzero : t.countP (!isBlank ·) = 0 := by omega
    intro c hc
    simpa using List.countP_eq_zero.1 hzero c hc
  · intro ht
    rw [trim_append_blank ht]

/-! ### Joining -/

theorem join_append_of_ne {left right : List Text} (separator : Text) (hleft : left ≠ []) (hright : right ≠ []) :
    join separator (left ++ right) = join separator left ++ separator ++ join separator right := by
  induction left with
  | nil => exact absurd rfl hleft
  | cons part left ih =>
    cases left with
    | nil =>
      obtain ⟨next, right, rfl⟩ := List.exists_cons_of_ne_nil hright
      rfl
    | cons next left =>
      have htail := ih (List.cons_ne_nil next left)
      show part ++ separator ++ join separator (next :: left ++ right) = _
      rw [htail]
      show _ = part ++ separator ++ join separator (next :: left) ++ separator ++ join separator right
      simp only [List.append_assoc]

end HeaderOutline.Text
