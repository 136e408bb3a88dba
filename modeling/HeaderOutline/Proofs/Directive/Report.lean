import HeaderOutline.Proofs.Directive.Definition
import HeaderOutline.Proofs.Report
/-!
# What a directive reports

A directive is not read for want of its number sign, of its name, or of the name that it defines; an include directive
also for want of a target. `StopsAt` says where that is, and what is left there by the trace. The name of a definition is looked for in
the logical line alone, without the white space at its end, and so this is too little wherever anything is behind the line.
`directive_report` says that the report leads to the right place in all other cases, and in no such case.
-/

namespace HeaderOutline

open HeaderOutline.Parser

namespace Directive

variable {before blanks space name body input place rest s t text : Text} {trace : Trace}

/-- Neither a name nor a space or tab in front of it comes next. -/
def Nameless (s : Text) : Prop := ∀ c ∈ s.head?, (c == ' ' || c == '\t') = false ∧ isWordStart c = false

/-- Behind `before` a directive cannot be read, and the trace says that `left` is left there, of all that is `place`. -/
inductive StopsAt : (before place left : Text) → Prop where
  | sign {place : Text} : place.head? ≠ some '#' → StopsAt [] place place
  | name {blanks place : Text} : IsSpacing blanks → Nameless place → StopsAt ('#' :: blanks) place place
  | definition {blanks space place : Text} : IsSpacing blanks → IsSpacing space → EndsWord (space ++ place) → Nameless place →
    StopsAt ('#' :: (blanks ++ ("define".toList ++ space))) place (Text.trimEnd (splitLogicalLine [] place).1)
  | target {before place : Text} {found : Directive} : directive (before ++ place) = .ok found place →
    (∀ included, found ≠ .includes included) → StopsAt before place place

theorem exists_spacing (s : Text) : ∃ space rest, s = space ++ rest ∧ IsSpacing space ∧
    (∀ c ∈ rest.head?, (c == ' ' || c == '\t') = false) ∧ blanks0 s = .ok space rest := by
  have hread : blanks0 s = .ok (s.takeWhile fun c => c == ' ' || c == '\t') (s.dropWhile fun c => c == ' ' || c == '\t') := rfl
  obtain ⟨hs, hspace, hrest⟩ := takeWhile_eq_ok.1 hread
  exact ⟨_, _, hs, hspace, hrest, hread⟩

theorem identifier_eq_mismatch (hread : identifier s = .mismatch trace) :
    trace = [⟨s, .rule .character⟩] ∧ ∀ c ∈ s.head?, isWordStart c = false := by
  unfold identifier at hread
  split at hread
  · next c rest =>
    split at hread
    · cases hread
    · next hc =>
      cases hread
      refine ⟨rfl, ?_⟩
      rintro d ⟨⟩
      exact Bool.eq_false_iff.2 hc
  · cases hread
    simp

theorem char_eq_mismatch {c : Char} (hread : char c s = .mismatch trace) : trace = [⟨s, .char c⟩] ∧ s.head? ≠ some c := by
  unfold char at hread
  split at hread
  · next d rest =>
    split at hread
    · cases hread
    · next hd =>
      cases hread
      exact ⟨rfl, fun heq => hd (Option.some.inj heq)⟩
  · cases hread
    simp

/-- A definition is not read for want of a name. -/
theorem define_eq_mismatch (hread : define body = .mismatch trace) : ∃ space left, body = space ++ left ∧ IsSpacing space ∧
    Nameless left ∧ trace = [⟨left, .rule .character⟩] := by
  obtain ⟨space, left, heq, hspace, hleft, hblanks⟩ := exists_spacing body
  rw [define, bind_of_ok hblanks] at hread
  rcases bind_eq_mismatch.1 hread with hname | ⟨_, _, -, hrest⟩
  · obtain ⟨htrace, hstart⟩ := identifier_eq_mismatch hname
    exact ⟨space, left, heq, hspace, fun c hc => ⟨hleft c hc, hstart c hc⟩, htrace⟩
  · exfalso
    rcases bind_eq_mismatch.1 hrest with hparams | ⟨_, _, -, hvalue⟩
    · exact Decided.ne_mismatch _ _ hparams
    · rcases bind_eq_mismatch.1 hvalue with hall | ⟨_, _, -, hpure⟩
      · cases hall
      · cases hpure

theorem ofBody_eq_mismatch (hread : ofBody name body text rest = .mismatch trace) :
    name = "define".toList ∧ define body = .mismatch trace := by
  unfold ofBody at hread
  dsimp only at hread
  split at hread
  · split at hread <;> cases hread
  · split at hread
    · next hname =>
      split at hread
      · cases hread
      · next hdefine =>
        cases hread
        exact ⟨hname, hdefine⟩
      · cases hread
    · split at hread <;> cases hread

theorem line_eq_mismatch (hread : line input = .mismatch trace) : ∃ before place mark, trace = [mark] ∧ before ++ place = input ∧
    StopsAt before place mark.place := by
  rcases bind_eq_mismatch.1 hread with hsign | ⟨_, behind, hsign, hbehind⟩
  · obtain ⟨rfl, hhead⟩ := char_eq_mismatch hsign
    exact ⟨[], input, _, rfl, rfl, .sign hhead⟩
  · obtain ⟨-, rfl⟩ := char_eq_ok.1 hsign
    obtain ⟨blanks, place, rfl, hspace, hplace, hblanks⟩ := exists_spacing behind
    rw [bind_of_ok hblanks] at hbehind
    rcases bind_eq_mismatch.1 hbehind with hname | ⟨_, _, -, hrest⟩
    · obtain ⟨rfl, hstart⟩ := identifier_eq_mismatch hname
      exact ⟨'#' :: blanks, place, _, rfl, rfl, .name hspace fun c hc => ⟨hplace c hc, hstart c hc⟩⟩
    · exfalso
      rcases bind_eq_mismatch.1 hrest with hline | ⟨_, _, -, hpure⟩
      · cases hline
      · cases hpure

/-- Spaces and tabs belong to the logical line that they stand in front of. -/
theorem splitLogicalLine_spacing (hspace : IsSpacing space) (place : Text) : splitLogicalLine [] (space ++ place) =
    (space ++ (splitLogicalLine [] place).1, (splitLogicalLine [] place).2) := by
  have hfeed : '\n' ∉ space := fun hmem => absurd (hspace _ hmem) (by decide)
  have hbefore : ∀ c ∈ (space.reverse ++ []).head?, c ≠ '\\' ∧ c ≠ '\r' := by
    intro c hc
    have hblank := hspace c (by simpa using List.mem_of_head? hc)
    constructor <;> rintro rfl <;> exact absurd hblank (by decide)
  have hcongr (s : Text) : isContinued (s ++ (space.reverse ++ [])) = isContinued (s ++ []) := by
    rw [isContinued_append hbefore, List.append_nil]
  rw [splitLogicalLine_append_of_continued (continuedBehind_of_not_mem hfeed), splitLogicalLine_congr hcongr]

theorem head?_splitLogicalLine (s : Text) : (splitLogicalLine [] s).1.head? = s.head? := by
  cases s with
  | nil => rfl
  | cons c s =>
    rw [splitLogicalLine_cons]
    split
    · next hend => rw [hend.1]; rfl
    · rfl

/-- Where the trimmed line of a definition has no name, the text has none either. -/
theorem nameless_of_trimEnd {left : Text} (hspace : IsSpacing space) (hplace : ∀ c ∈ place.head?, (c == ' ' || c == '\t') = false)
    (hbefore : IsSpacing before) (hleft : Nameless left)
    (htrim : Text.trimEnd (space ++ (splitLogicalLine [] place).1) = before ++ left) :
    left = Text.trimEnd (splitLogicalLine [] place).1 ∧ Nameless place := by
  have hhead := head?_splitLogicalLine place
  by_cases hfront : Text.IsBlank (splitLogicalLine [] place).1
  · have hblank : Text.IsBlank space := by
      intro c hc
      rcases Bool.or_eq_true_iff.1 (hspace c hc) with heq | heq <;> rw [beq_iff_eq.1 heq] <;> decide
    rw [Text.trimEnd_append hfront, Text.trimEnd_eq_nil_iff.2 hblank] at htrim
    refine ⟨?_, fun c hc => ⟨hplace c hc, ?_⟩⟩
    · rw [Text.trimEnd_eq_nil_iff.2 hfront]
      exact (List.append_eq_nil_iff.1 htrim.symm).2
    · refine Bool.eq_false_iff.2 fun hstart => ?_
      have hword := Text.isBlank_of_isWordChar (isWordChar_of_isWordStart hstart)
      rw [← hhead] at hc
      rw [hfront c (List.mem_of_head? hc)] at hword
      cases hword
  · have htrimHead : (Text.trimEnd (splitLogicalLine [] place).1).head? = place.head? := by
      obtain ⟨blank, -, heq⟩ := Text.exists_trimEnd (splitLogicalLine [] place).1
      have hne := mt Text.trimEnd_eq_nil_iff.1 hfront
      rw [← hhead]
      conv => rhs; rw [heq]
      exact (List.head?_append_of_ne_nil _ hne).symm
    rw [Text.trimEnd_append_of_not_isBlank hfront] at htrim
    have hread : blanks0 (space ++ Text.trimEnd (splitLogicalLine [] place).1) =
        .ok space (Text.trimEnd (splitLogicalLine [] place).1) := by
      refine takeWhile_eq_ok.2 ⟨rfl, hspace, ?_⟩
      rwa [htrimHead]
    have hread' : blanks0 (before ++ left) = .ok before left := takeWhile_eq_ok.2 ⟨rfl, hbefore, fun c hc => (hleft c hc).1⟩
    rw [htrim, hread'] at hread
    cases hread
    refine ⟨rfl, ?_⟩
    rwa [Nameless, ← htrimHead]

theorem StopsAt.exists_missing {left : Text} (hstop : StopsAt before place left) : ∃ missing, place = left ++ missing := by
  cases hstop with
  | sign | name | target => exact ⟨[], (List.append_nil _).symm⟩
  | definition =>
    obtain ⟨blank, -, heq⟩ := Text.exists_trimEnd (splitLogicalLine [] place).1
    refine ⟨blank ++ (splitLogicalLine [] place).2, ?_⟩
    rw [← List.append_assoc, ← heq, splitLogicalLine_append]

theorem directive_eq_mismatch (hread : directive input = .mismatch trace) :
    ∃ before place mark, trace = [mark] ∧ before ++ place = input ∧ StopsAt before place mark.place := by
  rw [directive_eq] at hread
  split at hread
  · next name body rest hline =>
    obtain ⟨rfl, hdefine⟩ := ofBody_eq_mismatch hread
    obtain ⟨blanks, tail, front, rfl, hblanks, -, hends, hsplit, rfl⟩ := line_eq_ok hline
    obtain ⟨space, place, rfl, hspace, hplace, -⟩ := exists_spacing tail
    rw [splitLogicalLine_spacing hspace] at hsplit
    cases hsplit
    obtain ⟨before, left, hbody, hbefore, hleft, rfl⟩ := define_eq_mismatch hdefine
    obtain ⟨rfl, hnameless⟩ := nameless_of_trimEnd hspace hplace hbefore hleft hbody
    exact ⟨_, place, _, rfl, by simp, .definition hblanks hspace hends hnameless⟩
  · next hline =>
    cases hread
    exact line_eq_mismatch hline
  · cases hread

theorem includeDirective_eq_mismatch (hread : includeDirective input = .mismatch trace) :
    ∃ before place mark, trace = [mark] ∧ before ++ place = input ∧ StopsAt before place mark.place := by
  rcases bind_eq_mismatch.1 hread with hmismatch | ⟨found, mid, hok, hfound⟩
  · exact directive_eq_mismatch hmismatch
  · obtain ⟨before, rfl⟩ := Bounded.suffix hok
    cases found with
    | includes included => cases hfound
    | defines | pragma | conditional =>
      cases hfound
      exact ⟨before, mid, _, rfl, rfl, .target hok nofun⟩

theorem includeDirective_ne_failure (input : Text) (trace : Trace) : includeDirective input ≠ .failure trace := by
  intro hread
  unfold includeDirective at hread
  rw [bind_apply] at hread
  cases hdirective : directive input with
  | ok found mid =>
    rw [hdirective] at hread
    cases found <;> cases hread
  | mismatch _ =>
    rw [hdirective] at hread
    cases hread
  | failure trace => exact BoundedBy.ne_failure input trace hdirective

end Directive

open Directive

/-- Each error of a directive has one place. The report of the error leads to where the directive cannot be read exactly if
that place is all that is left there, and then the source is cut between characters. Less is left only where a definition
lacks a name, of what is behind the line. -/
theorem directive_report {input : Text} {trace : Trace}
    (hread : (directive input = .mismatch trace ∨ directive input = .failure trace) ∨
      includeDirective input = .mismatch trace ∨ includeDirective input = .failure trace) :
    ∃ before place mark, trace = [mark] ∧ before ++ place = input ∧ StopsAt before place mark.place ∧
      (mark.place = place →
        Text.splitAtByte (Text.byteSize input - Text.byteSize mark.place) input = (before, place)) ∧
      ((SyntaxError.ofTrace input trace).placeIn? input = some place ↔ mark.place = place) := by
  have hstop : ∃ before place mark, trace = [mark] ∧ before ++ place = input ∧ StopsAt before place mark.place := by
    rcases hread with (hread | hread) | hread | hread
    · exact directive_eq_mismatch hread
    · exact absurd hread (BoundedBy.ne_failure input trace)
    · exact includeDirective_eq_mismatch hread
    · exact absurd hread (includeDirective_ne_failure input trace)
  obtain ⟨before, place, mark, rfl, rfl, hstop⟩ := hstop
  refine ⟨before, place, mark, rfl, rfl, hstop, fun hplace => ?_, ?_⟩
  · rw [hplace, Text.byteSize_append, Nat.add_sub_cancel, Text.splitAtByte_append]
  · obtain ⟨missing, hmissing⟩ := hstop.exists_missing
    have hiff := SyntaxError.placeIn?_locate_iff before mark.place missing (SyntaxError.expectation [mark])
    rw [← hmissing] at hiff
    refine hiff.trans ⟨?_, fun hplace => ?_⟩
    · rintro rfl
      rw [hmissing, List.append_nil]
    · rw [hplace] at hmissing
      exact List.append_right_eq_self.1 hmissing.symm

/-- A definition without a name at the end of the input. -/
theorem directive_report_end : directive "#define 3".toList = .mismatch [⟨['3'], .rule .character⟩] ∧
    ∃ before place, before ++ place = "#define 3".toList ∧ StopsAt before place ['3'] ∧
      ((SyntaxError.ofTrace "#define 3".toList [⟨['3'], .rule .character⟩]).placeIn? "#define 3".toList = some place ↔
        ['3'] = place) := by
  have hread : directive "#define 3".toList = .mismatch [⟨['3'], .rule .character⟩] := by decide +kernel
  obtain ⟨before, place, mark, htrace, heq, hstop, -, hplace⟩ := directive_report (.inl (.inl hread))
  cases htrace
  exact ⟨hread, before, place, heq, hstop, hplace⟩

/-- The same in front of another line, in which the report looks for the name. -/
theorem directive_report_line : directive "#define 3\nint x;".toList = .mismatch [⟨['3'], .rule .character⟩] ∧
    ¬['3'] <:+ "#define 3\nint x;".toList ∧
    (SyntaxError.ofTrace "#define 3\nint x;".toList [⟨['3'], .rule .character⟩]).placeIn? "#define 3\nint x;".toList = some [';'] := by
  decide +kernel

end HeaderOutline
