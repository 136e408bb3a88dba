import Mathlib
import HeaderOutline.Conversion
import HeaderOutline.Proofs.Grammar
/-!
# What a failed header reports

The trace of a failure begins at a place inside the source and names a construct of the language, because
every parser is bounded. The report turns that place into a line and a column; `placeIn?` reads them back, and
`placeIn?_locate` says that this finds the place again, so the two exist in the source. `header_failure` is the
statement about whole headers.
-/

namespace HeaderOutline

open HeaderOutline.Parser

/-! ### Byte offsets -/

/-- Cutting behind the front cuts what is behind it, whatever characters the front is made of. -/
theorem Text.splitAtByte_add (before rest : Text) (n : Nat) : splitAtByte (byteSize before + n) (before ++ rest) =
    (before ++ (splitAtByte n rest).1, (splitAtByte n rest).2) := by
  induction before with
  | nil => rw [byteSize_nil, List.nil_append, Nat.zero_add, List.nil_append]
  | cons c before ih =>
    obtain ⟨size, hsize⟩ : ∃ size, c.utf8Size = size + 1 := ⟨c.utf8Size - 1, by have := c.utf8Size_pos; omega⟩
    rw [byteSize_cons, hsize, show size + 1 + byteSize before + n = size + byteSize before + n + 1 by omega,
      List.cons_append, splitAtByte, hsize, show size + byteSize before + n + 1 - (size + 1) = byteSize before + n by omega,
      ih]
    rfl

theorem Text.splitAtByte_zero (s : Text) : splitAtByte 0 s = ([], s) := by
  cases s <;> rw [splitAtByte]

/-- Cutting at the size of the front takes off the front. -/
theorem Text.splitAtByte_append (before rest : Text) :
    splitAtByte (byteSize before) (before ++ rest) = (before, rest) := by
  have hsplit := splitAtByte_add before rest 0
  rwa [Nat.add_zero, splitAtByte_zero, List.append_nil] at hsplit

theorem Text.append_splitAtByte (n : Nat) (s : Text) : (splitAtByte n s).1 ++ (splitAtByte n s).2 = s := by
  fun_induction splitAtByte n s with
  | case1 => rfl
  | case2 => rfl
  | case3 offset c s front back heq ih =>
    rw [heq] at ih
    exact congrArg (c :: ·) ih

theorem Text.length_splitAtByte_lt {n : Nat} (hn : 0 < n) {s : Text} (hs : s ≠ []) : (splitAtByte n s).2.length < s.length := by
  obtain ⟨c, s, rfl⟩ := List.exists_cons_of_ne_nil hs
  obtain ⟨offset, rfl⟩ := Nat.exists_eq_succ_of_ne_zero (Nat.ne_of_gt hn)
  have hlength := congrArg List.length (append_splitAtByte (offset + 1 - c.utf8Size) s)
  rw [List.length_append] at hlength
  rw [splitAtByte, List.length_cons]
  dsimp only
  omega

theorem Text.byteSize_eq_zero_iff {s : Text} : byteSize s = 0 ↔ s = [] := by
  cases s with
  | nil => exact iff_of_true rfl rfl
  | cons c s =>
    have hsize := c.utf8Size_pos
    rw [byteSize_cons]
    refine iff_of_false ?_ (List.cons_ne_nil c s)
    omega

/-! ### Lines and columns -/

/-- The text behind the first line feeds. -/
def Text.behindLines? : Nat → Text → Option Text
  | 0, s => some s
  | _ + 1, [] => none
  | n + 1, c :: s => if c = '\n' then behindLines? n s else behindLines? (n + 1) s

/-- What is left of the text from a line and a column on, both counted from 1, if it has them. -/
def Text.placeAt? : (line column : Nat) → Text → Option Text
  | line + 1, column + 1, source =>
    (behindLines? line source).bind fun rest =>
      if column ≤ (rest.takeWhile (· != '\n')).length then some (rest.drop column) else none
  | _, _, _ => none

/-- The part of a text behind its last line feed. -/
def Text.lastLine (s : Text) : Text := (s.reverse.takeWhile (· != '\n')).reverse

theorem Text.lastLine_of_not_mem {s : Text} (hs : '\n' ∉ s) : lastLine s = s := by
  have hall : ∀ c ∈ s.reverse, (c != '\n') = true := by
    intro c hc
    rw [bne_iff_ne]
    rintro rfl
    exact hs (List.mem_reverse.1 hc)
  have htake : (s.reverse ++ []).takeWhile (· != '\n') = s.reverse ++ List.takeWhile (· != '\n') [] :=
    List.takeWhile_append_of_pos hall
  rw [List.append_nil, List.takeWhile_nil, List.append_nil] at htake
  rw [lastLine, htake, List.reverse_reverse]

theorem Text.lastLine_cons_of_mem {s : Text} (hs : '\n' ∈ s) (c : Char) : lastLine (c :: s) = lastLine s := by
  have hlength : (s.reverse.takeWhile (· != '\n')).length ≠ s.reverse.length := by
    intro heq
    have hall := (List.takeWhile_prefix (l := s.reverse) (· != '\n')).eq_of_length heq
    have hnewline := List.all_eq_true.1 (List.all_takeWhile (l := s.reverse)) '\n' (hall ▸ List.mem_reverse.2 hs)
    simp at hnewline
  rw [lastLine, List.reverse_cons, List.takeWhile_append, if_neg hlength, lastLine]

theorem Text.lastLine_cons_newline (s : Text) : lastLine ('\n' :: s) = lastLine s := by
  by_cases hs : '\n' ∈ s
  · exact lastLine_cons_of_mem hs '\n'
  · have hline := lastLine_of_not_mem hs
    have hlength : (s.reverse.takeWhile (· != '\n')).length = s.reverse.length := by
      rw [← List.length_reverse, ← lastLine, hline, List.length_reverse]
    rw [lastLine, List.reverse_cons, List.takeWhile_append, if_pos hlength]
    simpa using hline.symm

theorem Text.lastLine_append_of_not_mem {t : Text} (ht : '\n' ∉ t) (s : Text) : lastLine (s ++ t) = lastLine s ++ t := by
  have hall : ∀ c ∈ t.reverse, (c != '\n') = true := by
    intro c hc
    rw [bne_iff_ne]
    rintro rfl
    exact ht (List.mem_reverse.1 hc)
  rw [lastLine, List.reverse_append, List.takeWhile_append_of_pos hall, List.reverse_append, List.reverse_reverse, lastLine]

theorem Text.lastLine_append_newline (s t : Text) : lastLine (s ++ '\n' :: t) = lastLine t := by
  induction s with
  | nil => exact lastLine_cons_newline t
  | cons c s ih => rw [List.cons_append, lastLine_cons_of_mem (List.mem_append_right s List.mem_cons_self), ih]

theorem Text.exists_lastLine_append (s t : Text) : ∃ front, lastLine (s ++ t) = front ++ lastLine t := by
  induction s with
  | nil => exact ⟨[], rfl⟩
  | cons c s ih =>
    by_cases hmem : '\n' ∈ s ++ t
    · rw [List.cons_append, lastLine_cons_of_mem hmem]
      exact ih
    · by_cases hc : c = '\n'
      · rw [hc, List.cons_append, lastLine_cons_newline]
        exact ih
      · have hboth : '\n' ∉ c :: (s ++ t) := by simp [hmem, Ne.symm hc]
        have ht : '\n' ∉ t := fun hin => hmem (List.mem_append_right s hin)
        exact ⟨c :: s, by rw [List.cons_append, lastLine_of_not_mem hboth, lastLine_of_not_mem ht, List.cons_append]⟩

theorem Text.behindLines?_count (before rest : Text) :
    behindLines? (before.count '\n') (before ++ rest) = some (lastLine before ++ rest) := by
  induction before with
  | nil => simp [behindLines?, lastLine]
  | cons c before ih =>
    by_cases hc : c = '\n'
    · subst hc
      rw [List.count_cons_self, List.cons_append, behindLines?, if_pos rfl, ih, lastLine_cons_newline]
    · rw [List.count_cons_of_ne hc]
      by_cases hbefore : '\n' ∈ before
      · obtain ⟨n, hn⟩ := Nat.exists_eq_succ_of_ne_zero (Nat.ne_of_gt (List.count_pos_iff.2 hbefore))
        rw [hn] at ih ⊢
        rw [List.cons_append, behindLines?, if_neg hc, ih, lastLine_cons_of_mem hbefore]
      · have hmem : '\n' ∉ c :: before := by simp [hbefore, Ne.symm hc]
        rw [List.count_eq_zero_of_not_mem hbefore, lastLine_of_not_mem hmem, behindLines?]

namespace SyntaxError

/-- What is left of the source at the line and column of the report. -/
def placeIn? (error : SyntaxError) (source : Text) : Option Text := Text.placeAt? error.line error.column source

/-- The line and the column of a report lead back to where the source is cut. -/
theorem placeIn?_locate_split (source remaining expected : Text) : (locate source remaining expected).placeIn? source =
    some (Text.splitAtByte (Text.byteSize source - Text.byteSize remaining) source).2 := by
  have hsource := Text.append_splitAtByte (Text.byteSize source - Text.byteSize remaining) source
  cases hsplit : Text.splitAtByte (Text.byteSize source - Text.byteSize remaining) source with
  | mk before rest =>
    rw [hsplit] at hsource
    have hline : (locate source remaining expected).line = before.count '\n' + 1 := by
      unfold locate
      rw [hsplit]
    have hcolumn : (locate source remaining expected).column = (Text.lastLine before).length + 1 := by
      unfold locate
      rw [hsplit]
      rfl
    have hall : ∀ c ∈ Text.lastLine before, (c != '\n') = true := fun c hc =>
      List.all_eq_true.1 List.all_takeWhile c (List.mem_reverse.1 hc)
    have hshort : (Text.lastLine before).length ≤ ((Text.lastLine before ++ rest).takeWhile (· != '\n')).length := by
      rw [List.takeWhile_append_of_pos hall, List.length_append]
      omega
    rw [placeIn?, hline, hcolumn, ← hsource, Text.placeAt?, Text.behindLines?_count, Option.bind_some, if_pos hshort,
      List.drop_left]

/-- The line and the column of a report lead back to its place. -/
theorem placeIn?_locate (before rest expected : Text) :
    (locate (before ++ rest) rest expected).placeIn? (before ++ rest) = some rest := by
  rw [placeIn?_locate_split, Text.byteSize_append, Nat.add_sub_cancel, Text.splitAtByte_append]

/-- They do not lead back to a place of which the end is missing in the trace. -/
theorem placeIn?_locate_iff (before remaining missing expected : Text) :
    (locate (before ++ (remaining ++ missing)) remaining expected).placeIn? (before ++ (remaining ++ missing)) =
      some (remaining ++ missing) ↔ missing = [] := by
  constructor
  · intro hplace
    refine Decidable.byContradiction fun hmissing => ?_
    have hsize : 0 < Text.byteSize missing := Nat.pos_of_ne_zero (mt Text.byteSize_eq_zero_iff.1 hmissing)
    have hoffset : Text.byteSize (before ++ (remaining ++ missing)) - Text.byteSize remaining =
        Text.byteSize before + Text.byteSize missing := by
      rw [Text.byteSize_append, Text.byteSize_append]
      omega
    have hlength := Text.length_splitAtByte_lt hsize (List.append_ne_nil_of_right_ne_nil remaining hmissing)
    rw [placeIn?_locate_split, hoffset, Text.splitAtByte_add, Option.some.injEq] at hplace
    dsimp only at hplace
    rw [hplace] at hlength
    exact absurd hlength (Nat.lt_irrefl _)
  · rintro rfl
    rw [List.append_nil]
    exact placeIn?_locate before remaining expected

theorem expectation_of_construct {trace : Trace} {name : Text} (hname : trace.construct? = some name) :
    expectation trace = name := by
  unfold expectation
  dsimp only
  split
  · next found _ hfound => exact Option.some.inj (hfound.symm.trans hname)
  · next hnone => cases hnone.symm.trans hname
  · next hnone => cases hnone.symm.trans hname

end SyntaxError

/-! ### Whole headers -/

theorem header_reported {room : Nat} {source : Text} {trace : Trace} (hheader : header room source = .failure trace) :
    trace.Reported committedConstructs source :=
  (BoundedBy.reported (p := Header.ofScope <$> scope room false) hheader).mono
    (Header.withoutByteOrderMark_suffix source)

theorem header_ne_mismatch (room : Nat) (source : Text) (trace : Trace) : header room source ≠ .mismatch trace :=
  Decided.ne_mismatch (p := Header.ofScope <$> scope room false) _ trace

/-- A header that is not read fails for good. The innermost place of the failure lies in the source, at a
boundary between characters, and its innermost construct is one of the six that parsers commit to. The report
names that construct, and its line and column exist in the source and lead back to the place. -/
theorem header_failure (source : Text) :
    (∀ trace, header nestingLimit source ≠ .mismatch trace) ∧
    ∀ trace, header nestingLimit source = .failure trace →
      ∃ mark more before, trace = mark :: more ∧ before ++ mark.place = source ∧
        Text.splitAtByte (Text.byteSize source - Text.byteSize mark.place) source = (before, mark.place) ∧
        (SyntaxError.ofTrace source trace).placeIn? source = some mark.place ∧
        ∃ name ∈ committedConstructs, trace.construct? = some name ∧
          (SyntaxError.ofTrace source trace).expected = name := by
  refine ⟨header_ne_mismatch nestingLimit source, fun trace hheader => ?_⟩
  obtain ⟨⟨mark, more, rfl, before, hbefore⟩, name, hname, hconstruct⟩ := header_reported hheader
  refine ⟨mark, more, before, rfl, hbefore, ?_, ?_, name, hname, hconstruct, ?_⟩
  · rw [← hbefore, Text.byteSize_append, Nat.add_sub_cancel, Text.splitAtByte_append]
  · rw [← hbefore]
    exact SyntaxError.placeIn?_locate before mark.place _
  · exact SyntaxError.expectation_of_construct hconstruct

set_option maxRecDepth 20000 in
/-- A stray brace behind a byte order mark and a letter of two bytes. -/
theorem header_failure_brace :
    header nestingLimit "\uFEFF//é\n \x7d".toList = .failure [⟨"\x7d".toList, .context "declaration".toList⟩] ∧
    (SyntaxError.ofTrace "\uFEFF//é\n \x7d".toList [⟨"\x7d".toList, .context "declaration".toList⟩]).placeIn?
      "\uFEFF//é\n \x7d".toList = some "\x7d".toList := by
  have hheader : header nestingLimit "\uFEFF//é\n \x7d".toList =
      .failure [⟨"\x7d".toList, .context "declaration".toList⟩] := by cbv
  obtain ⟨mark, more, -, heq, -, -, hplace, -⟩ := (header_failure _).2 _ hheader
  cases heq
  exact ⟨hheader, hplace⟩

end HeaderOutline
