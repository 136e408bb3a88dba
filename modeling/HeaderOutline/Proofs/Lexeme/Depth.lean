import HeaderOutline.Lexeme.Block
import HeaderOutline.Proofs.Lexeme.Walk
/-!
# The depth of a block

A block is scanned with the number of its own brackets that are open. The brackets are counted in bytes; for the pairs that
are scanned for this is the same as counting characters, since no other character has a byte of theirs. So the scan of a block is a
fold over its code, and the depth at the end is the difference of two counts.
-/

namespace HeaderOutline

variable {opener closer c : Char} {depth depth' : Int} {mode : Scan.Mode} {before text code : Text}

/-- The two brackets of a pair that blocks are scanned for, angle brackets included. -/
def IsScannedPair (opener closer : Char) : Prop := (opener, closer) ∈ [('(', ')'), ('[', ']'), ('{', '}'), ('<', '>')]

instance (opener closer : Char) : Decidable (IsScannedPair opener closer) := inferInstanceAs (Decidable (_ ∈ _))

theorem IsScannedPair.cases (hpair : IsScannedPair opener closer) :
    opener = '(' ∧ closer = ')' ∨ opener = '[' ∧ closer = ']' ∨ opener = '{' ∧ closer = '}' ∨ opener = '<' ∧ closer = '>' := by
  simpa [IsScannedPair] using hpair

theorem IsBracketPair.scanned (hpair : IsBracketPair opener closer) : IsScannedPair opener closer := by
  rcases hpair.cases with ⟨rfl, rfl⟩ | ⟨rfl, rfl⟩ | ⟨rfl, rfl⟩ <;> decide

namespace IsScannedPair

theorem ne (hpair : IsScannedPair opener closer) : closer ≠ opener := by
  rcases hpair.cases with ⟨rfl, rfl⟩ | ⟨rfl, rfl⟩ | ⟨rfl, rfl⟩ | ⟨rfl, rfl⟩ <;> decide

theorem opener_plain (hpair : IsScannedPair opener closer) : opener ∉ ['\'', '"', '/'] := by
  rcases hpair.cases with ⟨rfl, -⟩ | ⟨rfl, -⟩ | ⟨rfl, -⟩ | ⟨rfl, -⟩ <;> decide

theorem closer_plain (hpair : IsScannedPair opener closer) : closer ∉ ['\'', '"', '/'] := by
  rcases hpair.cases with ⟨-, rfl⟩ | ⟨-, rfl⟩ | ⟨-, rfl⟩ | ⟨-, rfl⟩ <;> decide

theorem ofNat_bracketByte (hpair : IsScannedPair opener closer) : Char.ofNat (bracketByte closer) = closer := by
  rcases hpair.cases with ⟨-, rfl⟩ | ⟨-, rfl⟩ | ⟨-, rfl⟩ | ⟨-, rfl⟩ <;> rfl

end IsScannedPair

/-! ### Counting in bytes -/

/-- A byte of a character is its code point, or it is no ASCII byte. -/
theorem toNat_of_mem_utf8EncodeChar {byte : UInt8} (hbyte : byte ∈ String.utf8EncodeChar c) :
    byte.toNat = c.toNat ∨ 128 ≤ byte.toNat := by
  rw [String.utf8EncodeChar] at hbyte
  have hval : c.val.toNat = c.toNat := rfl
  have hofNat (n : Nat) : (UInt8.ofNat n).toNat = n % 256 := UInt8.toNat_ofNat'
  split at hbyte
  · rw [List.mem_singleton.1 hbyte, hofNat]
    exact .inl (by omega)
  · right
    split at hbyte
    · simp only [List.mem_cons, List.not_mem_nil, or_false] at hbyte
      rcases hbyte with rfl | rfl <;> rw [hofNat] <;> omega
    · split at hbyte
      · simp only [List.mem_cons, List.not_mem_nil, or_false] at hbyte
        rcases hbyte with rfl | rfl | rfl <;> rw [hofNat] <;> omega
      · simp only [List.mem_cons, List.not_mem_nil, or_false] at hbyte
        rcases hbyte with rfl | rfl | rfl | rfl <;> rw [hofNat] <;> omega

theorem countBrackets_of_forall {opener closer : Nat} {bytes : List UInt8}
    (hbytes : ∀ byte ∈ bytes, byte.toNat ≠ opener ∧ byte.toNat ≠ closer) (depth : Int) :
    countBrackets opener closer depth bytes = (depth, false) := by
  induction bytes with
  | nil => rfl
  | cons byte bytes ih =>
    obtain ⟨hopener, hcloser⟩ := hbytes byte List.mem_cons_self
    rw [countBrackets, if_neg hopener, if_neg hcloser]
    exact ih fun other hother => hbytes other (List.mem_cons_of_mem byte hother)

theorem countBrackets_char (hpair : IsScannedPair opener closer) (depth : Int) (c : Char) :
    countBrackets (bracketByte opener) (bracketByte closer) depth (String.utf8EncodeChar c) =
      if c = opener then (depth + 1, false)
      else if c = closer then if depth = 1 then (0, true) else (depth - 1, false)
      else (depth, false) := by
  by_cases hopener : c = opener
  · subst hopener
    rw [if_pos rfl]
    rcases hpair.cases with ⟨rfl, rfl⟩ | ⟨rfl, rfl⟩ | ⟨rfl, rfl⟩ | ⟨rfl, rfl⟩ <;> rfl
  by_cases hcloser : c = closer
  · subst hcloser
    rw [if_neg hopener, if_pos rfl]
    rcases hpair.cases with ⟨rfl, rfl⟩ | ⟨rfl, rfl⟩ | ⟨rfl, rfl⟩ | ⟨rfl, rfl⟩ <;> rfl
  · rw [if_neg hopener, if_neg hcloser]
    apply countBrackets_of_forall
    intro byte hbyte
    have hvalue := toNat_of_mem_utf8EncodeChar hbyte
    have hopener : c.toNat ≠ opener.toNat := fun h => hopener (Char.toNat_inj.1 h)
    have hcloser : c.toNat ≠ closer.toNat := fun h => hcloser (Char.toNat_inj.1 h)
    have hascii : opener.toNat < 128 ∧ closer.toNat < 128 := by
      rcases hpair.cases with ⟨rfl, rfl⟩ | ⟨rfl, rfl⟩ | ⟨rfl, rfl⟩ | ⟨rfl, rfl⟩ <;> decide
    unfold bracketByte
    omega

/-! ### Blocks as scans -/

/-- The depth behind a character of code, and none behind the bracket that ends the block. -/
def depthBehind (opener closer : Char) (depth : Int) (c : Char) : Option Int :=
  match countBrackets (bracketByte opener) (bracketByte closer) depth (String.utf8EncodeChar c) with
  | (_, true) => none
  | (depth', false) => some depth'

theorem blockFrom_eq_run (opener closer : Char) (depth : Int) (mode : Scan.Mode) (before text : Text) :
    blockFrom (bracketByte opener) (bracketByte closer) depth mode before text =
      match (Scan.run (depthBehind opener closer) depth mode before text).2 with
      | (_, []) => none
      | (taken, c :: rest) => some (taken ++ [c], rest) := by
  induction text generalizing depth mode before with
  | nil => rfl
  | cons c rest ih =>
    rw [blockFrom, Scan.run, depthBehind]
    cases mode.step before c rest with
    | some mode' => exact ih depth mode' (c :: before)
    | none =>
      rcases countBrackets (bracketByte opener) (bracketByte closer) depth (String.utf8EncodeChar c) with ⟨depth', _ | _⟩
      · exact ih depth' .code (c :: before)
      · simp

theorem depthBehind_eq (hpair : IsScannedPair opener closer) (depth : Int) (c : Char) : depthBehind opener closer depth c =
    if c = opener then some (depth + 1) else if c = closer then if depth = 1 then none else some (depth - 1) else some depth := by
  rw [depthBehind, countBrackets_char hpair]
  split_ifs <;> rfl

theorem depthBehind_eq_none (hpair : IsScannedPair opener closer) : depthBehind opener closer depth c = none ↔ c = closer ∧ depth = 1 := by
  rw [depthBehind_eq hpair]
  have hne := hpair.ne
  constructor
  · intro hnone
    split_ifs at hnone with hopener hcloser hone
    exact ⟨hcloser, hone⟩
  · rintro ⟨rfl, rfl⟩
    rw [if_neg hne, if_pos rfl, if_pos rfl]

/-- The depth behind a code is the number of brackets that it opens less the number of those that it closes. -/
theorem depth_eq_of_foldlM (hpair : IsScannedPair opener closer) (hdepth : code.foldlM (depthBehind opener closer) depth = some depth') :
    depth' = depth + code.count opener - code.count closer := by
  induction code generalizing depth with
  | nil =>
    obtain rfl : depth = depth' := Option.some.inj hdepth
    simp
  | cons c code ih =>
    rw [List.foldlM_cons] at hdepth
    obtain ⟨between, hbetween, hdepth⟩ := Option.bind_eq_some_iff.1 hdepth
    have hrest := ih hdepth
    rw [depthBehind_eq hpair] at hbetween
    have hne := hpair.ne
    split_ifs at hbetween with hopener hcloser hone <;> cases hbetween
    · subst hopener
      rw [List.count_cons_self, List.count_cons_of_ne hne.symm]
      omega
    · subst hcloser
      rw [List.count_cons_self, List.count_cons_of_ne hne]
      omega
    · rw [List.count_cons_of_ne hopener, List.count_cons_of_ne hcloser]
      exact hrest

/-- In a block the depth stays above zero. -/
theorem one_le_of_depthBehind (hpair : IsScannedPair opener closer) (hdepth : 1 ≤ depth)
    (hbehind : depthBehind opener closer depth c = some depth') : 1 ≤ depth' := by
  rw [depthBehind_eq hpair] at hbehind
  split_ifs at hbehind <;> cases hbehind <;> omega

theorem one_le_of_foldlM (hpair : IsScannedPair opener closer) (hdepth : 1 ≤ depth)
    (hbehind : code.foldlM (depthBehind opener closer) depth = some depth') : 1 ≤ depth' := by
  induction code generalizing depth with
  | nil =>
    obtain rfl : depth = depth' := Option.some.inj hbehind
    exact hdepth
  | cons c code ih =>
    rw [List.foldlM_cons] at hbehind
    obtain ⟨between, hbetween, hbehind⟩ := Option.bind_eq_some_iff.1 hbehind
    exact ih (one_le_of_depthBehind hpair hdepth hbetween) hbehind

/-- A block ends at the closing bracket in front of which the depth is one. -/
theorem block_of_walks {rest : Text} (hpair : IsScannedPair opener closer) (hhead : text.head? = some opener)
    (htext : Scan.Walks (closer :: rest) [] text code) (hdepth : code.foldlM (depthBehind opener closer) 0 = some 1) :
    block opener closer (text ++ closer :: rest) = .ok (text ++ [closer]) rest := by
  have hstop : depthBehind opener closer 1 closer = none := (depthBehind_eq_none hpair).2 ⟨rfl, rfl⟩
  have hrun := Scan.run_walks htext hdepth
  rw [Scan.run_of_stop (Scan.isCode_of_ne hpair.closer_plain rest) hstop, List.append_nil, List.reverse_reverse] at hrun
  have hinput : (text ++ closer :: rest).head? = some opener := by rw [List.head?_append, hhead, Option.some_or]
  rw [block, if_pos hinput, blockFrom_eq_run, hrun]

end HeaderOutline
