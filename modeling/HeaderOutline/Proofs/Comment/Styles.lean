import Mathlib.Data.List.Infix
import HeaderOutline.Proofs.Comment.Leading
import HeaderOutline.Proofs.Text.Blank
/-!
# The two styles of comments

The same lines of documentation can be written as line comments below one another, or all in one block comment. Each
style cuts the text into pieces in its own way, but every piece is a line with a margin in front and white space
behind it, so both are read as the same lines.
-/

namespace HeaderOutline

open HeaderOutline.Parser
open Text (IsBlank)

variable {line back behind rest input content : Text} {lines : List Text}

namespace Comment

/-- A line of documentation: it begins with no margin, ends with no white space, and does not end a comment. -/
structure IsDocLine (line : Text) : Prop where
  ne_nil : line ≠ []
  inLine : ∀ c ∈ line, isInLine c = true
  notClosing : ¬"*/".toList <:+: line
  head : ∀ c ∈ line.head?, isMargin c = false ∧ c ≠ '<'
  getLast : ∀ c ∈ line.getLast?, Text.isBlank c = false

instance (line : Text) : Decidable (IsDocLine line) :=
  decidable_of_iff (line ≠ [] ∧ (∀ c ∈ line, isInLine c = true) ∧ ¬"*/".toList <:+: line ∧
      (∀ c ∈ line.head?, isMargin c = false ∧ c ≠ '<') ∧ ∀ c ∈ line.getLast?, Text.isBlank c = false)
    ⟨fun ⟨hne, hinLine, hclosing, hhead, hlast⟩ => ⟨hne, hinLine, hclosing, hhead, hlast⟩,
      fun hline => ⟨hline.ne_nil, hline.inLine, hline.notClosing, hline.head, hline.getLast⟩⟩

/-! ### A line and its margin -/

section LineText

variable {margin : Text} (hmargin : ∀ c ∈ margin, isMargin c = true)

include hmargin

theorem lineText_margin_append (line : Text) : lineText (margin ++ line) = lineText line := by
  rw [lineText, List.dropWhile_append_of_pos hmargin, lineText]

theorem lineText_margin : lineText margin = [] := by
  have hnone := lineText_margin_append hmargin []
  rw [List.append_nil] at hnone
  exact hnone

theorem lineText_append (hline : IsDocLine line) (hback : IsBlank back) : lineText (margin ++ (line ++ back)) = line := by
  rw [lineText_margin_append hmargin]
  obtain ⟨c, tail, rfl⟩ := List.exists_cons_of_ne_nil hline.ne_nil
  obtain ⟨hc, hangle⟩ := hline.head c rfl
  have hblank : Text.isBlank c = false := by
    simp only [isMargin, Bool.or_eq_false_iff] at hc
    exact hc.1.1.1
  have hopen : ¬(fun d => d == '<') c = true := mt beq_iff_eq.1 hangle
  rw [lineText, List.cons_append, List.dropWhile_cons, if_neg (Bool.eq_false_iff.1 hc), List.dropWhile_cons, if_neg hopen,
    ← List.cons_append, Text.trim_append_blank hback]
  refine Text.trim_of_ends ?_ hline.getLast
  rintro _ ⟨⟩
  exact hblank

end LineText

/-- A carriage return at the end of a line belongs to no text. -/
theorem lineText_append_return (line : Text) : lineText (line ++ ['\r']) = lineText line := by
  have hblank : IsBlank ['\r'] := by decide
  have hdrop (property : Char → Bool) (text : Text) :
      (text ++ ['\r']).dropWhile property = text.dropWhile property ++ ['\r'] ∨
        (text ++ ['\r']).dropWhile property = text.dropWhile property := by
    rw [List.dropWhile_append]
    split
    · next hempty =>
      rw [List.isEmpty_iff.1 hempty]
      by_cases hproperty : property '\r' = true
      · exact .inr (List.dropWhile_cons_of_pos hproperty)
      · exact .inl (List.dropWhile_cons_of_neg hproperty)
    · exact .inl rfl
  unfold lineText
  rcases hdrop isMargin line with hfirst | hfirst
  · rw [hfirst]
    rcases hdrop (· == '<') (line.dropWhile isMargin) with hsecond | hsecond
    · rw [hsecond, Text.trim_append_blank hblank]
    · rw [hsecond]
  · rw [hfirst]

/-! ### Line comments -/

/-- What begins a line comment: indentation, the slashes and what else stands in front of the line. The marks are `//`,
`///` and `//!`, with white space or further marks behind them. -/
def IsLineLead (lead : Text) : Prop :=
  ∃ indent margin, lead = indent ++ '/' :: '/' :: margin ∧ IsSpaces indent ∧
    ∀ c ∈ margin, isInLine c = true ∧ isMargin c = true

/-- White space that does not end the line. -/
def IsLineBlank (back : Text) : Prop := ∀ c ∈ back, isInLine c = true ∧ Text.isBlank c = true

/-- A line ends in front of `behind`, and `rest` is below it. -/
inductive EndsLine : Text → Text → Prop
  | lineFeed (rest : Text) : EndsLine ('\n' :: rest) rest
  | return (rest : Text) : EndsLine ('\r' :: '\n' :: rest) rest
  | eof : EndsLine [] []

/-- The input has the lines as comments of their own, one below the other, in front of `rest`. -/
inductive LineForm (rest : Text) : List Text → Text → Prop
  | nil : LineForm rest [] rest
  | cons {lead line back behind input : Text} {lines : List Text} (hlead : IsLineLead lead) (hback : IsLineBlank back)
    (hbehind : EndsLine behind input) (htail : LineForm rest lines input) :
    LineForm rest (line :: lines) (lead ++ (line ++ back) ++ behind)

namespace EndsLine

variable (hbehind : EndsLine behind rest)

include hbehind

theorem head? : ∀ c ∈ behind.head?, isInLine c = false := by
  cases hbehind with
  | lineFeed | «return» =>
    rintro c ⟨⟩
    rfl
  | eof => nofun

theorem restOfLine : restOfLine behind = .ok [] behind := by
  cases hbehind <;> rfl

theorem lineEnding : ∃ ending, opt lineEnding behind = .ok ending rest := by
  cases hbehind <;> exact ⟨_, rfl⟩

end EndsLine

/-- A comment line with its indentation. -/
theorem indentedLine_append {lead : Text} (hlead : IsLineLead lead) (hline : IsDocLine line) (hback : IsLineBlank back)
    (hbehind : EndsLine behind rest) :
    (do let _ ← spaces0; oneLine : Parser Text) (lead ++ (line ++ back) ++ behind) = .ok line rest := by
  obtain ⟨indent, margin, rfl, hindent, hmargin⟩ := hlead
  have htext : indent ++ '/' :: '/' :: margin ++ (line ++ back) ++ behind =
      indent ++ '/' :: '/' :: (margin ++ (line ++ back) ++ behind) := by simp
  have hspaces : spaces0 (indent ++ '/' :: '/' :: (margin ++ (line ++ back) ++ behind)) =
      .ok _ ('/' :: '/' :: (margin ++ (line ++ back) ++ behind)) :=
    congrArg (Outcome.ok _) ((List.dropWhile_append_of_pos hindent).trans (List.dropWhile_cons_of_neg (by decide)))
  obtain ⟨mark, lost, more, heq, hlost, hmark⟩ := mark_append (margin ++ (line ++ back)) hbehind.head?
  have hmore : ∀ c ∈ more, isInLine c = true := by
    have hall : ∀ c ∈ margin ++ (line ++ back), isInLine c = true :=
      List.forall_mem_append.2 ⟨fun c hc => (hmargin c hc).1,
        List.forall_mem_append.2 ⟨hline.inLine, fun c hc => (hback c hc).1⟩⟩
    exact fun c hc => hall c (heq ▸ List.mem_append_right lost hc)
  have hvalue : lineText more = line := by
    rw [← lineText_margin_append hlost, ← heq]
    exact lineText_append (fun c hc => (hmargin c hc).2) hline fun c hc => (hback c hc).2
  have hread := restOfLine_append hmore hbehind.restOfLine
  rw [List.append_nil] at hread
  obtain ⟨ending, hending⟩ := hbehind.lineEnding
  rw [htext, bind_of_ok hspaces, oneLine, bind_of_ok hmark, bind_of_ok hread, bind_of_ok hending, hvalue]
  rfl

/-- No further comment line is there unless it begins with slashes. -/
theorem mismatches_indentedLine (hrest : ¬"//".toList <+: rest.dropWhile isSpace) :
    Mismatches (do let _ ← spaces0; oneLine : Parser Text) rest := by
  refine .bind_of_ok (p := spaces0) rfl (.bind (.firstOf fun p hp => ?_))
  have hliteral {word : String} (hword : "//".toList <+: word.toList) :
      Mismatches (literal word) (rest.dropWhile isSpace) :=
    literal_of_not_begins fun hmark => hrest (hword.trans hmark)
  simp only [List.mem_cons, List.not_mem_nil, or_false] at hp
  rcases hp with rfl | rfl | rfl <;> exact hliteral (by decide)

theorem LineForm.many (hinput : LineForm rest lines input) (hlines : ∀ line ∈ lines, IsDocLine line)
    (hrest : ¬"//".toList <+: rest.dropWhile isSpace) :
    many (do let _ ← spaces0; oneLine) input = .ok lines rest := by
  induction hinput with
  | nil => exact many_of_mismatch (mismatches_indentedLine hrest)
  | cons hlead hback hbehind htail ih =>
    obtain ⟨hline, hlines⟩ := List.forall_mem_cons.1 hlines
    have hread := indentedLine_append hlead hline hback hbehind
    rw [many_of_ok hread (Consuming.lt hread), ih hlines]
    rfl

/-! ### Block comments -/

/-- What can stand in front of a line in a block: white space, line feeds and marks, but no slash. -/
def IsBlockMargin (margin : Text) : Prop := ∀ c ∈ margin, isMargin c = true ∧ c ≠ '/'

instance (margin : Text) : Decidable (IsBlockMargin margin) := inferInstanceAs (Decidable (∀ c ∈ margin, _))

/-- The content of a block that has each of the lines on its own. -/
inductive BlockForm : List Text → Text → Prop
  | closing {margin : Text} (hmargin : IsBlockMargin margin) : BlockForm [] margin
  | last {margin line back : Text} (hmargin : IsBlockMargin margin) (hback : IsBlank back) (hfeed : '\n' ∉ back) :
    BlockForm [line] (margin ++ (line ++ back))
  | cons {margin line back content : Text} {lines : List Text} (hmargin : IsBlockMargin margin) (hback : IsBlank back)
    (hfeed : '\n' ∉ back) (htail : BlockForm lines content) :
    BlockForm (line :: lines) (margin ++ (line ++ back) ++ '\n' :: content)

theorem splitBefore?_line {margin text before mark : Text} (hmargin : IsBlockMargin margin) (hline : IsDocLine line)
    (hback : IsBlank back) (htext : text.head? ≠ some '/')
    (hsplit : Text.splitBefore? "*/".toList text = some (before, mark)) :
    Text.splitBefore? "*/".toList (margin ++ (line ++ back) ++ text) = some (margin ++ (line ++ back) ++ before, mark) := by
  have hslash {front : Text} (hfront : '/' ∉ front) : ¬"*/".toList <:+: front := fun hinside =>
    hfront (hinside.subset (by decide))
  have hblank : '/' ∉ back := fun hmem => nomatch hback '/' hmem
  have hbehind : (back ++ text).head? ≠ some '/' := by
    cases back with
    | nil => exact htext
    | cons d back =>
      intro hhead
      cases hhead
      exact hblank List.mem_cons_self
  have hfirst : (line ++ (back ++ text)).head? ≠ some '/' := by
    obtain ⟨c, tail, rfl⟩ := List.exists_cons_of_ne_nil hline.ne_nil
    intro hhead
    cases hhead
    cases (hline.head '/' rfl).1
  have hread := splitBefore?_closing_append (hslash fun hmem => (hmargin '/' hmem).2 rfl) (fun _ => hfirst)
    (splitBefore?_closing_append hline.notClosing (fun _ => hbehind)
      (splitBefore?_closing_append (hslash hblank) (fun _ => htext) hsplit))
  simpa only [List.append_assoc] using hread

/-- The content of a block goes on to the mark that is meant to end it. -/
theorem BlockForm.splitBefore? (hcontent : BlockForm lines content) (hlines : ∀ line ∈ lines, IsDocLine line) (rest : Text) :
    Text.splitBefore? "*/".toList (content ++ '*' :: '/' :: rest) = some (content, '*' :: '/' :: rest) := by
  have hmark : Text.splitBefore? "*/".toList ('*' :: '/' :: rest) = some ([], '*' :: '/' :: rest) := rfl
  have hstar : ('*' :: '/' :: rest).head? ≠ some '/' := nofun
  induction hcontent with
  | closing hmargin =>
    have hslash : ¬"*/".toList <:+: _ := fun hinside => (hmargin '/' (hinside.subset (by decide))).2 rfl
    exact splitBefore?_closing hslash rest
  | last hmargin hback hfeed =>
    have hread := splitBefore?_line hmargin (hlines _ List.mem_cons_self) hback hstar hmark
    rwa [List.append_nil] at hread
  | cons hmargin hback hfeed htail ih =>
    obtain ⟨hline, hlines⟩ := List.forall_mem_cons.1 hlines
    have hfeed_only : ¬"*/".toList <:+: ['\n'] := by decide
    have hbelow := splitBefore?_closing_append hfeed_only nofun (ih hlines)
    have hread := splitBefore?_line hmargin hline hback (by nofun) hbelow
    simpa using hread

/-- The lines of the content of a block that hold text. -/
def textLines (content : Text) : List Text := ((Text.lines content).map lineText).filter fun line => !line.isEmpty

theorem textLines_of_not_mem (hfeed : '\n' ∉ content) :
    textLines content = [lineText content].filter fun line => !line.isEmpty := by
  rw [textLines, Text.lines_of_not_mem hfeed]
  cases content with
  | nil => rfl
  | cons c content => rfl

theorem textLines_append (hfeed : '\n' ∉ line) (content : Text) :
    textLines (line ++ '\n' :: content) = textLines line ++ textLines content := by
  obtain ⟨text, htext, hlines⟩ := Text.lines_append hfeed content
  have hvalue : lineText text = lineText line := by
    rcases htext with rfl | rfl
    · rfl
    · exact (lineText_append_return text).symm
  rw [textLines_of_not_mem hfeed, textLines, hlines, List.map_cons, hvalue, ← List.singleton_append, List.filter_append]
  rfl

/-- Only the part of a margin behind its last line feed is in the line. -/
theorem exists_lastMargin {margin : Text} (hmargin : ∀ c ∈ margin, isMargin c = true) : ∃ last,
    '\n' ∉ last ∧ (∀ c ∈ last, isMargin c = true) ∧ ∀ content, textLines (margin ++ content) = textLines (last ++ content) := by
  induction margin using List.reverseRecOn with
  | nil => exact ⟨[], nofun, nofun, fun _ => rfl⟩
  | append_singleton margin c ih =>
    rw [List.forall_mem_append, List.forall_mem_singleton] at hmargin
    obtain ⟨last, hfeed, hlast, heq⟩ := ih hmargin.1
    by_cases hc : c = '\n'
    · subst hc
      refine ⟨[], nofun, nofun, fun content => ?_⟩
      rw [List.append_assoc, heq, List.singleton_append, textLines_append hfeed, textLines_of_not_mem hfeed,
        lineText_margin hlast]
      rfl
    · refine ⟨last ++ [c], ?_, List.forall_mem_append.2 ⟨hlast, List.forall_mem_singleton.2 hmargin.2⟩, fun content => ?_⟩
      · rw [List.mem_append, List.mem_singleton, not_or]
        exact ⟨hfeed, Ne.symm hc⟩
      · rw [List.append_assoc, heq, List.append_assoc]

theorem textLines_line {margin : Text} (hmargin : ∀ c ∈ margin, isMargin c = true) (hmarginFeed : '\n' ∉ margin)
    (hline : IsDocLine line) (hback : IsBlank back) (hfeed : '\n' ∉ back) :
    '\n' ∉ margin ++ (line ++ back) ∧ textLines (margin ++ (line ++ back)) = [line] := by
  have hnone : '\n' ∉ margin ++ (line ++ back) := by
    have hlineFeed : '\n' ∉ line := fun hmem => Bool.false_ne_true (hline.inLine '\n' hmem)
    simp only [List.mem_append, not_or]
    exact ⟨hmarginFeed, hlineFeed, hfeed⟩
  refine ⟨hnone, ?_⟩
  have hkept : (!line.isEmpty) = true := by simpa using hline.ne_nil
  rw [textLines_of_not_mem hnone, lineText_append hmargin hline hback, List.filter_cons, if_pos hkept, List.filter_nil]

theorem BlockForm.textLines_eq (hcontent : BlockForm lines content) (hlines : ∀ line ∈ lines, IsDocLine line) :
    textLines content = lines := by
  induction hcontent with
  | @closing margin hmargin =>
    obtain ⟨last, hfeed, hlast, heq⟩ := exists_lastMargin fun c hc => (hmargin c hc).1
    have hmarginLines := heq []
    rw [List.append_nil, List.append_nil, textLines_of_not_mem hfeed, lineText_margin hlast] at hmarginLines
    exact hmarginLines
  | last hmargin hback hfeed =>
    obtain ⟨last, hlastFeed, hlast, heq⟩ := exists_lastMargin fun c hc => (hmargin c hc).1
    rw [heq]
    exact (textLines_line hlast hlastFeed (hlines _ List.mem_cons_self) hback hfeed).2
  | cons hmargin hback hfeed htail ih =>
    obtain ⟨hline, hlines⟩ := List.forall_mem_cons.1 hlines
    obtain ⟨last, hlastFeed, hlast, heq⟩ := exists_lastMargin fun c hc => (hmargin c hc).1
    obtain ⟨hnone, hfirst⟩ := textLines_line hlast hlastFeed hline hback hfeed
    rw [List.append_assoc, heq, ← List.append_assoc, textLines_append hnone, hfirst, ih hlines]
    rfl

end Comment

open Comment

/-- Lines of documentation are read as they are, joined by line feeds, whether they are written as line comments with
no further one below, or in one block. Nothing but the comment is consumed. -/
theorem comment_styles (hne : lines ≠ []) (hlines : ∀ line ∈ lines, IsDocLine line) (hinput : LineForm rest lines input)
    (hrest : ¬"//".toList <+: rest.dropWhile isSpace) (hcontent : BlockForm lines content) (behind : Text) :
    comment input = .ok (Text.join ['\n'] lines) rest ∧
      comment ("/*".toList ++ content ++ "*/".toList ++ behind) = .ok (Text.join ['\n'] lines) behind := by
  constructor
  · rw [comment, bind_of_ok (firstOf_of_ok (many1_of_many (hinput.many hlines hrest) hne))]
    rfl
  · have hmark : ¬"//".toList <+: ('/' :: '*' :: (content ++ '*' :: '/' :: behind)).dropWhile isSpace := by
      rintro ⟨_, heq⟩
      exact absurd (List.cons.inj (List.cons.inj heq).2).1 (by decide)
    have hstart : Mismatches (many1 (do let _ ← spaces0; oneLine)) ('/' :: '*' :: (content ++ '*' :: '/' :: behind)) :=
      .many1 (mismatches_indentedLine hmark)
    have hopen : literal "/*" ('/' :: '*' :: (content ++ '*' :: '/' :: behind)) = .ok _ _ := rfl
    have huntil : takeUntil "*/" (content ++ '*' :: '/' :: behind) = .ok content ('*' :: '/' :: behind) := by
      rw [takeUntil, hcontent.splitBefore? hlines]
    have hclose : literal "*/" ('*' :: '/' :: behind) = .ok _ behind := rfl
    have hblock : blockLines ('/' :: '*' :: (content ++ '*' :: '/' :: behind)) = .ok lines behind := by
      rw [blockLines, bind_of_ok hopen, bind_of_ok huntil, bind_of_ok hclose]
      exact congrArg (Outcome.ok · behind) (hcontent.textLines_eq hlines)
    have htext : "/*".toList ++ content ++ "*/".toList ++ behind = '/' :: '*' :: (content ++ '*' :: '/' :: behind) := by simp
    rw [htext, comment, bind_of_ok ((firstOf_of_mismatch hstart).trans (firstOf_of_ok hblock))]
    rfl

theorem comment_styles_two :
    comment "// one *\r\n\t/// two".toList = .ok "one *\ntwo".toList [] ∧
      comment "/**\n * one *\n * two */;".toList = .ok "one *\ntwo".toList [';'] := by
  have hsecond : LineForm [] ["two".toList] ("\t/// ".toList ++ ("two".toList ++ []) ++ []) :=
    .cons ⟨['\t'], ['/', ' '], rfl, by decide, by decide⟩ nofun .eof .nil
  have hinput : LineForm [] ["one *".toList, "two".toList]
      ("// ".toList ++ ("one *".toList ++ []) ++ '\r' :: '\n' :: ("\t/// ".toList ++ ("two".toList ++ []) ++ [])) :=
    .cons ⟨[], [' '], rfl, by decide, by decide⟩ nofun (.return _) hsecond
  have hcontent : BlockForm ["one *".toList, "two".toList]
      ("*\n * ".toList ++ ("one *".toList ++ []) ++ '\n' :: (" * ".toList ++ ("two".toList ++ [' ']))) :=
    .cons (by decide) (by decide) nofun (.last (by decide) (by decide) (by decide))
  exact comment_styles (List.cons_ne_nil _ _) (by decide) hinput (by decide) hcontent [';']

end HeaderOutline
