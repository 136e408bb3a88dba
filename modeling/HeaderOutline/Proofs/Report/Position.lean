import Mathlib.Data.Prod.Lex
import HeaderOutline.Proofs.Report
import HeaderOutline.Proofs.Text.Blank
/-!
# Where a report points

The line and the column of a report lead back to its place, and they grow with it: behind a place comes a later column of
the same line, or a later line. What the report shows is the line of the place, from one line feed to the next.
`locate_position` says all of this of every place of every source.
-/

namespace HeaderOutline

namespace Text

/-- `line` is what stands between the last line feed in front of a place and the first one behind it, where `before` is in
front of the place and `rest` behind it. An end of the text ends the line, too. -/
def IsLineAt (before rest line : Text) : Prop :=
  ∃ front head tail back, before = front ++ head ∧ rest = tail ++ back ∧ line = head ++ tail ∧ '\n' ∉ line ∧
    (∀ c ∈ front.getLast?, c = '\n') ∧ ∀ c ∈ back.head?, c = '\n'

theorem bne_newline_of_not_mem {s : Text} (hs : '\n' ∉ s) : ∀ c ∈ s, (c != '\n') = true := by
  intro c hc
  simp only [bne_iff_ne, ne_eq]
  intro heq
  exact hs (heq ▸ hc)

theorem not_mem_lastLine (s : Text) : '\n' ∉ lastLine s := by
  intro hmem
  have hall := List.all_eq_true.1 (List.all_takeWhile (p := (· != '\n')) (l := s.reverse))
  have hnewline := hall '\n' (List.mem_reverse.1 hmem)
  simp at hnewline

theorem not_mem_takeWhile (s : Text) : '\n' ∉ s.takeWhile (· != '\n') := by
  intro hmem
  have hnewline := List.all_eq_true.1 (List.all_takeWhile (p := (· != '\n')) (l := s)) '\n' hmem
  simp at hnewline

/-- A text that ends with a line feed leaves its last line empty. -/
theorem lastLine_of_getLast? {s : Text} (hs : ∀ c ∈ s.getLast?, c = '\n') : lastLine s = [] := by
  rcases List.eq_nil_or_concat s with rfl | ⟨init, c, rfl⟩
  · rfl
  · obtain rfl : c = '\n' := hs c (by simp)
    rw [List.concat_eq_append, lastLine_append_newline]
    rfl

theorem exists_append_lastLine (s : Text) : ∃ front, s = front ++ lastLine s ∧ ∀ c ∈ front.getLast?, c = '\n' := by
  refine ⟨(s.reverse.dropWhile (· != '\n')).reverse, ?_, ?_⟩
  · rw [lastLine, ← List.reverse_append, List.takeWhile_append_dropWhile, List.reverse_reverse]
  · intro c hc
    rw [List.getLast?_reverse] at hc
    have hhead := List.head?_dropWhile_not (· != '\n') s.reverse
    rw [hc] at hhead
    simpa using hhead

theorem isLineAt_iff {before rest line : Text} :
    IsLineAt before rest line ↔ line = lastLine before ++ rest.takeWhile (· != '\n') := by
  constructor
  · rintro ⟨front, head, tail, back, rfl, rfl, rfl, hline, hfront, hback⟩
    rw [List.mem_append, not_or] at hline
    have htail : (tail ++ back).takeWhile (· != '\n') = tail := by
      have hnil : back.takeWhile (· != '\n') = [] := by
        cases back with
        | nil => rfl
        | cons c back => simp [hback c rfl]
      rw [List.takeWhile_append_of_pos (bne_newline_of_not_mem hline.2), hnil, List.append_nil]
    rw [lastLine_append_of_not_mem hline.1, lastLine_of_getLast? hfront, htail, List.nil_append]
  · rintro rfl
    obtain ⟨front, hbefore, hfront⟩ := exists_append_lastLine before
    refine ⟨front, lastLine before, _, rest.dropWhile (· != '\n'), hbefore, List.takeWhile_append_dropWhile.symm, rfl, ?_, hfront, ?_⟩
    · rw [List.mem_append, not_or]
      exact ⟨not_mem_lastLine before, not_mem_takeWhile rest⟩
    · intro c hc
      have hhead := List.head?_dropWhile_not (· != '\n') rest
      rw [hc] at hhead
      simpa using hhead

end Text

namespace SyntaxError

/-! ### What a report is made of -/

theorem locate_append (before rest expected : Text) : locate (before ++ rest) rest expected =
    { line := before.count '\n' + 1
      column := (Text.lastLine before).length + 1
      expected := expected
      snippet := snippetOf (Text.lastLine before ++ rest.takeWhile (· != '\n')) rest } := by
  have hsplit : Text.splitAtByte (Text.byteSize (before ++ rest) - Text.byteSize rest) (before ++ rest) = (before, rest) := by
    rw [Text.byteSize_append, Nat.add_sub_cancel, Text.splitAtByte_append]
  simp only [locate, hsplit]
  rfl

/-- A place further on is on a later line, or on the same line in a later column. -/
theorem position_lt (before : Text) {mid : Text} (hmid : mid ≠ []) :
    toLex (before.count '\n' + 1, (Text.lastLine before).length + 1) <
      toLex ((before ++ mid).count '\n' + 1, (Text.lastLine (before ++ mid)).length + 1) := by
  rw [Prod.Lex.toLex_lt_toLex, List.count_append]
  by_cases hnewline : '\n' ∈ mid
  · left
    have hcount := List.count_pos_iff.2 hnewline
    show before.count '\n' + 1 < before.count '\n' + mid.count '\n' + 1
    omega
  · right
    have hlength := List.length_pos_iff.2 hmid
    rw [List.count_eq_zero_of_not_mem hnewline, Text.lastLine_append_of_not_mem hnewline, List.length_append]
    refine ⟨rfl, ?_⟩
    show (Text.lastLine before).length + 1 < (Text.lastLine before).length + mid.length + 1
    omega

/-! ### What a report shows -/

theorem snippetOf_eq (line rest : Text) : snippetOf line rest =
    if Text.IsBlank line ∧ Text.IsBlank rest then endOfInput
    else if (Text.trim line).length ≤ snippetLength then Text.trim line
    else (Text.trim line).take snippetLength ++ "...".toList := by
  by_cases hblank : Text.IsBlank line ∧ Text.IsBlank rest
  · have hboth : ((Text.trim line).isEmpty && (Text.trim rest).isEmpty) = true := by
      rw [Text.trim_of_isBlank hblank.1, Text.trim_of_isBlank hblank.2]
      rfl
    simp only [snippetOf, hboth, if_pos hblank, if_true]
  · have hnot : ¬((Text.trim line).isEmpty && (Text.trim rest).isEmpty) = true := by
      rw [Bool.and_eq_true, List.isEmpty_iff, List.isEmpty_iff, Text.trim_eq_nil_iff, Text.trim_eq_nil_iff]
      exact hblank
    simp only [snippetOf, if_neg hnot, if_neg hblank]
    by_cases hlong : snippetLength < (Text.trim line).length
    · rw [if_pos hlong, if_neg (by omega)]
    · rw [if_neg hlong, if_pos (by omega)]

theorem not_mem_snippetOf {line : Text} (hline : '\n' ∉ line) (rest : Text) : '\n' ∉ snippetOf line rest := by
  have htrim : '\n' ∉ Text.trim line := fun hmem => hline (Text.mem_of_mem_trim hmem)
  rw [snippetOf_eq]
  split
  · decide
  · split
    · exact htrim
    · intro hmem
      rcases List.mem_append.1 hmem with hshown | hdots
      · exact htrim (List.mem_of_mem_take hshown)
      · revert hdots
        decide

/-! ### The position of a report -/

/-- A report for the place between `before` and `rest`: its line and column lead to the place, a place further on has a greater
line or on the same line a greater column, and it shows the line of the place without white space at the ends, up to sixty
characters of it, or that the input is at its end. -/
theorem locate_position (before rest expected : Text) :
    (locate (before ++ rest) rest expected).placeIn? (before ++ rest) = some rest ∧
    (∀ mid later, rest = mid ++ later → mid ≠ [] →
      toLex ((locate (before ++ rest) rest expected).line, (locate (before ++ rest) rest expected).column) <
        toLex ((locate (before ++ rest) later expected).line, (locate (before ++ rest) later expected).column)) ∧
    '\n' ∉ (locate (before ++ rest) rest expected).snippet ∧
    ∃ line, (∀ other, Text.IsLineAt before rest other ↔ other = line) ∧
      (locate (before ++ rest) rest expected).snippet =
        if Text.IsBlank line ∧ Text.IsBlank rest then "<end of input>".toList
        else if (Text.trim line).length ≤ 60 then Text.trim line
        else (Text.trim line).take 60 ++ "...".toList := by
  refine ⟨placeIn?_locate before rest expected, ?further, ?feed, ?line⟩
  case further =>
    rintro mid later rfl hmid
    have hlater := locate_append (before ++ mid) later expected
    rw [List.append_assoc] at hlater
    rw [hlater, locate_append]
    exact position_lt before hmid
  case feed =>
    rw [locate_append]
    apply not_mem_snippetOf
    rw [List.mem_append, not_or]
    exact ⟨Text.not_mem_lastLine before, Text.not_mem_takeWhile rest⟩
  case line =>
    refine ⟨Text.lastLine before ++ rest.takeWhile (· != '\n'), fun other => Text.isLineAt_iff, ?_⟩
    rw [locate_append]
    exact snippetOf_eq _ rest

/-- Behind a letter of two bytes on the second line, and a letter further on. -/
theorem locate_position_accents :
    (locate "a\n éb\nc".toList "b\nc".toList "x".toList).placeIn? "a\n éb\nc".toList = some "b\nc".toList ∧
    toLex ((locate "a\n éb\nc".toList "b\nc".toList "x".toList).line, (locate "a\n éb\nc".toList "b\nc".toList "x".toList).column) <
      toLex ((locate "a\n éb\nc".toList "c".toList "x".toList).line, (locate "a\n éb\nc".toList "c".toList "x".toList).column) := by
  obtain ⟨hplace, hfurther, -⟩ := locate_position "a\n é".toList "b\nc".toList "x".toList
  exact ⟨hplace, hfurther "b\n".toList "c".toList rfl (by decide)⟩

end SyntaxError

end HeaderOutline
