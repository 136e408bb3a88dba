import HeaderOutline.Lexeme.Gap
import HeaderOutline.Proofs.Lexeme.Closed
/-!
# Places of code in a closed text

What comes next at a place of code of a closed text ends in the text: a gap, an attribute. Behind it there is a place of
code again, with the same brackets open.
-/

namespace HeaderOutline

open HeaderOutline.Parser

variable {strict : Bool} {opened opened' : List Char} {before text rest tail : Text} {c : Char}

/-! ### Places -/

/-- The text closes these brackets, and maybe others. -/
def Closes (strict : Bool) (opened : List Char) (mode : Scan.Mode) (before text : Text) : Prop :=
  ∃ brackets, opened.Sublist brackets ∧ closesFrom strict (accepted strict) brackets mode before text = true

/-- A place of code from where on the text closes these brackets. -/
def IsPlace (strict : Bool) (opened : List Char) (text : Text) : Prop := ∃ before, Closes strict opened .code before text

/-- A place that no number stands in front of. -/
def IsStart (strict : Bool) (opened : List Char) (text : Text) : Prop := Closes strict opened .code [] text

theorem IsStart.isPlace (htext : IsStart strict opened text) : IsPlace strict opened text := ⟨[], htext⟩

theorem IsClosed.isStart (htext : IsClosed strict text) : IsStart strict [] text := ⟨[], List.nil_sublist _, htext⟩

theorem isStart_of_before (hbefore : before.takeWhile Scan.isNumberChar = []) (htext : Closes strict opened .code before text) :
    IsStart strict opened text := by
  obtain ⟨brackets, hopened, hclosed⟩ := htext
  refine ⟨brackets, hopened, ?_⟩
  rw [← closesFrom_congr_before hbefore]
  exact hclosed

theorem IsPlace.ne_nil (htext : IsPlace strict opened text) (hopened : opened ≠ []) : text ≠ [] := by
  rintro rfl
  obtain ⟨before, brackets, hsub, hclosed⟩ := htext
  obtain ⟨rfl, -⟩ := eq_nil_of_closesFrom hclosed
  exact hopened (List.sublist_nil.1 hsub)

/-- What is open behind a character of code. -/
theorem IsPlace.exists_step (htext : IsPlace strict opened (c :: rest)) (hc : Scan.IsCode c rest) :
    ∃ brackets brackets' before, opened.Sublist brackets ∧ BracketStep strict c brackets brackets' ∧ accepted strict c rest = true ∧
      closesFrom strict (accepted strict) brackets' .code (c :: before) rest = true := by
  obtain ⟨before, brackets, hopened, hclosed⟩ := htext
  obtain ⟨brackets', hstep, haccepted, hrest⟩ := exists_of_closesFrom (hc.step before) hclosed
  exact ⟨brackets, brackets', before, hopened, hstep, haccepted, hrest⟩

theorem IsPlace.behind (htext : IsPlace strict opened (c :: rest)) (hc : Scan.IsCode c rest)
    (hstep : ∀ {brackets brackets'}, BracketStep strict c brackets brackets' → opened.Sublist brackets → opened'.Sublist brackets') :
    IsPlace strict opened' rest := by
  obtain ⟨brackets, brackets', before, hopened, hbracket, -, hrest⟩ := htext.exists_step hc
  exact ⟨c :: before, brackets', hstep hbracket hopened, hrest⟩

theorem IsPlace.start_behind (htext : IsPlace strict opened (c :: rest)) (hc : Scan.IsCode c rest)
    (hnumber : Scan.isNumberChar c = false)
    (hstep : ∀ {brackets brackets'}, BracketStep strict c brackets brackets' → opened.Sublist brackets → opened'.Sublist brackets') :
    IsStart strict opened' rest := by
  obtain ⟨brackets, brackets', before, hopened, hbracket, -, hrest⟩ := htext.exists_step hc
  exact isStart_of_before (List.takeWhile_cons_of_neg (Bool.eq_false_iff.1 hnumber)) ⟨brackets', hstep hbracket hopened, hrest⟩

/-- Neither a bracket nor the beginning of a literal or comment. -/
def IsInert (c : Char) : Prop := c ∉ ['\'', '"', '/', '(', '[', '{', ')', ']', '}', '<', '>']

instance (c : Char) : Decidable (IsInert c) := inferInstanceAs (Decidable (c ∉ _))

namespace IsInert

theorem isCode (hc : IsInert c) (rest : Text) : Scan.IsCode c rest := Scan.isCode_of_ne (by simp_all [IsInert]) rest

theorem sublist (hc : IsInert c) {brackets brackets' : List Char} (hstep : BracketStep strict c brackets brackets')
    (hopened : opened.Sublist brackets) : opened.Sublist brackets' := by
  rw [hstep.eq_of_ne (by simp_all [IsInert])]
  exact hopened

end IsInert

theorem IsPlace.of_append {front : Text} (hfront : ∀ c ∈ front, IsInert c) (htext : IsPlace strict opened (front ++ rest)) :
    IsPlace strict opened rest := by
  induction front with
  | nil => exact htext
  | cons c front ih =>
    have hc := hfront c List.mem_cons_self
    exact ih (fun d hd => hfront d (List.mem_cons_of_mem c hd)) (htext.behind (hc.isCode _) hc.sublist)

/-- A closed text with a blank in front of it. -/
theorem IsClosed.isPlace (htext : IsClosed strict text) : IsPlace strict [] (' ' :: text) := by
  refine ⟨[], [], List.nil_sublist _, ?_⟩
  have hbracket : bracketStep? strict [] ' ' = some [] := by cases strict <;> rfl
  have haccepted : accepted strict ' ' text = true := by cases strict <;> rfl
  have hstart : closesFrom strict (accepted strict) [] .code [' '] text = true := (closesFrom_congr_before (by rfl)).trans htext
  rw [closesFrom, Scan.Mode.step_code_of_ne (by decide), hbracket]
  dsimp only
  rw [haccepted, hstart]
  rfl

theorem isInert_of_isWordChar (hc : isWordChar c = true) : IsInert c := by
  intro hmem
  simp only [List.mem_cons, List.not_mem_nil, or_false] at hmem
  rcases hmem with rfl | rfl | rfl | rfl | rfl | rfl | rfl | rfl | rfl | rfl | rfl <;> exact absurd hc (by decide)

theorem isInert_of_isSpace (hc : isSpace c = true) : IsInert c := by
  intro hmem
  simp only [List.mem_cons, List.not_mem_nil, or_false] at hmem
  rcases hmem with rfl | rfl | rfl | rfl | rfl | rfl | rfl | rfl | rfl | rfl | rfl <;> exact absurd hc (by decide)

theorem isNumberChar_of_isSpace (hc : isSpace c = true) : Scan.isNumberChar c = false := by
  simp only [isSpace, Bool.or_eq_true, beq_iff_eq] at hc
  rcases hc with ((rfl | rfl) | rfl) | rfl <;> decide

/-- A literal ends at the next quotation mark if nothing is escaped in it. -/
theorem IsPlace.behind_string {content : Text} (hcontent : ∀ c ∈ content, c ∉ ['\\', '"'])
    (htext : IsPlace strict opened ('"' :: (content ++ '"' :: rest))) : IsPlace strict opened rest := by
  obtain ⟨before, brackets, hopened, hclosed⟩ := htext
  rw [closesFrom_of_step rfl] at hclosed
  generalize '"' :: before = front at hclosed
  induction content generalizing front with
  | nil =>
    rw [List.nil_append, closesFrom_of_step rfl] at hclosed
    exact ⟨_, brackets, hopened, hclosed⟩
  | cons c content ih =>
    have hc := hcontent c List.mem_cons_self
    simp only [List.mem_cons, List.not_mem_nil, or_false, not_or] at hc
    rw [List.cons_append, closesFrom_of_step (by rw [Scan.Mode.step, if_neg hc.1, if_neg hc.2])] at hclosed
    exact ih (fun d hd => hcontent d (List.mem_cons_of_mem c hd)) _ hclosed

/-! ### Gaps -/

section Gap

variable {accepts : Char → Text → Bool}

/-- A line comment ends with its line, since the text goes on with code. -/
theorem exists_of_lineComment (hclosed : closesFrom strict accepts opened .lineComment before text = true) :
    ∃ line before' rest, text = line ++ '\n' :: rest ∧ '\n' ∉ line ∧
      closesFrom strict accepts opened .code ('\n' :: before') rest = true := by
  induction text generalizing before with
  | nil => exact absurd (eq_nil_of_closesFrom hclosed).2 (by decide)
  | cons c text ih =>
    by_cases hc : c = '\n'
    · subst hc
      obtain ⟨_, hbracket, -, hrest⟩ := exists_of_closesFrom (by rw [Scan.Mode.step, if_pos rfl]) hclosed
      rw [hbracket.eq_of_ne (by decide)] at hrest
      exact ⟨[], before, text, rfl, List.not_mem_nil, hrest⟩
    · rw [closesFrom_of_step (by rw [Scan.Mode.step, if_neg hc])] at hclosed
      obtain ⟨line, before', rest, rfl, hline, hrest⟩ := ih hclosed
      exact ⟨c :: line, before', rest, rfl, List.not_mem_cons_of_ne_of_not_mem (Ne.symm hc) hline, hrest⟩

/-- A block comment ends at its first closing mark. -/
theorem exists_of_blockComment (hclosed : closesFrom strict accepts opened .blockComment before text = true) :
    ∃ content before' rest, Text.splitBefore? "*/".toList text = some (content, '*' :: '/' :: rest) ∧
      closesFrom strict accepts opened .code ('/' :: before') rest = true := by
  induction text generalizing before with
  | nil => exact absurd (eq_nil_of_closesFrom hclosed).2 (by decide)
  | cons c text ih =>
    by_cases hmark : c = '*' ∧ text.head? = some '/'
    · obtain ⟨rfl, hhead⟩ := hmark
      obtain ⟨rest, rfl⟩ := List.head?_eq_some_iff.1 hhead
      rw [closesFrom_of_step (by rw [Scan.Mode.step, if_pos ⟨rfl, rfl⟩]), closesFrom_of_step rfl] at hclosed
      exact ⟨[], _, rest, rfl, hclosed⟩
    · rw [closesFrom_of_step (by rw [Scan.Mode.step, if_neg hmark])] at hclosed
      obtain ⟨content, before', rest, hsplit, hrest⟩ := ih hclosed
      refine ⟨c :: content, before', rest, ?_, hrest⟩
      have hafter : Text.after? "*/".toList (c :: text) = none := by
        refine Option.eq_none_iff_forall_not_mem.2 fun rest hrest => hmark ?_
        have htext := Text.after?_eq_some_iff.1 hrest
        obtain ⟨rfl, rfl⟩ := List.cons.inj htext
        exact ⟨rfl, rfl⟩
      rw [Text.splitBefore?, hafter, hsplit]
      rfl

end Gap

/-- The end of a line, which the line comment in front of it leaves. -/
theorem restOfLine_append_lineFeed {line : Text} (hline : '\n' ∉ line) :
    (∃ comment, ∃ spaces ∈ [[], ['\r']], ∀ text, restOfLine (line ++ '\n' :: text) = .ok comment (spaces ++ '\n' :: text)) ∨
      ∀ text, ∃ trace, restOfLine (line ++ '\n' :: text) = .mismatch trace := by
  have hdrop (text : Text) : (line ++ '\n' :: text).dropWhile isInLine = line.dropWhile isInLine ++ '\n' :: text :=
    dropWhile_append_of_head (by rintro c ⟨⟩; rfl) line
  have htake (text : Text) : (line ++ '\n' :: text).takeWhile isInLine = line.takeWhile isInLine :=
    takeWhile_append_of_head (by rintro c ⟨⟩; rfl) line
  cases hdropped : line.dropWhile isInLine with
  | nil =>
    refine .inl ⟨line.takeWhile isInLine, [], by decide, fun text => ?_⟩
    unfold restOfLine
    rw [hdrop, htake, hdropped]
    rfl
  | cons c behind =>
    have hc : c = '\r' := by
      have hmem : c ∈ line := (List.dropWhile_suffix isInLine).mem (hdropped ▸ List.mem_cons_self)
      have hhead := List.head?_dropWhile_not isInLine line
      rw [hdropped] at hhead
      simp only [isInLine, List.head?_cons, Bool.and_eq_false_iff, bne_eq_false_iff_eq] at hhead
      exact hhead.resolve_right fun heq => hline (heq ▸ hmem)
    subst hc
    cases behind with
    | nil =>
      refine .inl ⟨line.takeWhile isInLine, ['\r'], by decide, fun text => ?_⟩
      unfold restOfLine
      rw [hdrop, htake, hdropped]
      rfl
    | cons d behind =>
      have hd : d ≠ '\n' := by
        rintro rfl
        exact hline ((List.dropWhile_suffix isInLine).mem (hdropped ▸ by simp))
      refine .inr fun text => ⟨[⟨line ++ '\n' :: text, .rule .literal⟩], ?_⟩
      unfold restOfLine
      rw [hdrop, hdropped]
      split
      · next heq => exact absurd (List.cons.inj (List.cons.inj heq).2).1 hd
      · rfl
      · next heq => exact absurd rfl (heq _)

/-- Nothing is skipped here. -/
def GapEnds (text : Text) : Prop := ∀ tail, IsEnd tail → gapEnd (text ++ tail) = text ++ tail

/-- White space or a comment is skipped, and the gap goes on behind it. -/
def GapGoesOn (strict : Bool) (opened : List Char) (text : Text) : Prop := ∃ rest, rest.length < text.length ∧
  IsStart strict opened rest ∧ ∀ tail, IsEnd tail → gapEnd (text ++ tail) = gapEnd (rest ++ tail)

theorem gap_space (hc : isSpace c = true) (htext : IsPlace strict opened (c :: text)) : GapGoesOn strict opened (c :: text) := by
  have hinert := isInert_of_isSpace hc
  refine ⟨text, Nat.lt_succ_self _, ?_, fun tail _ => by rw [List.cons_append, gapEnd, if_pos hc]⟩
  exact htext.start_behind (hinert.isCode text) (isNumberChar_of_isSpace hc) hinert.sublist

theorem gap_lineComment (htext : IsPlace strict opened ('/' :: '/' :: text)) :
    GapEnds ('/' :: '/' :: text) ∨ GapGoesOn strict opened ('/' :: '/' :: text) := by
  obtain ⟨before, brackets, hopened, hclosed⟩ := htext
  rw [closesFrom_of_step rfl, closesFrom_of_step rfl] at hclosed
  obtain ⟨line, before', rest, rfl, hline, hrest⟩ := exists_of_lineComment hclosed
  have happend (tail : Text) : '/' :: '/' :: (line ++ '\n' :: rest) ++ tail = '/' :: '/' :: (line ++ '\n' :: (rest ++ tail)) := by
    simp
  rcases restOfLine_append_lineFeed hline with ⟨comment, spaces, hmem, hread⟩ | hmismatch
  · right
    have hspaces : ∀ spaces ∈ [[], ['\r']], IsSpaces spaces := by decide
    have hstart : IsStart strict opened rest := isStart_of_before (List.takeWhile_cons_of_neg (by decide)) ⟨brackets, hopened, hrest⟩
    refine ⟨rest, by simp; omega, hstart, fun tail _ => ?_⟩
    have hcomment : behindComment? ('/' :: '/' :: (line ++ '\n' :: (rest ++ tail))) = some (spaces ++ '\n' :: (rest ++ tail)) := by
      rw [behindComment?, hread]
    rw [happend, gapEnd_of_behindComment? hcomment, gapEnd_append (hspaces spaces hmem), gapEnd, if_pos (by decide)]
  · left
    intro tail _
    obtain ⟨trace, hread⟩ := hmismatch (rest ++ tail)
    rw [happend]
    exact gapEnd_of_no_comment rfl (by rw [behindComment?, hread])

theorem gap_blockComment (htext : IsPlace strict opened ('/' :: '*' :: text)) : GapGoesOn strict opened ('/' :: '*' :: text) := by
  obtain ⟨before, brackets, hopened, hclosed⟩ := htext
  rw [closesFrom_of_step rfl, closesFrom_of_step rfl] at hclosed
  obtain ⟨content, before', rest, hsplit, hrest⟩ := exists_of_blockComment hclosed
  have hlength := congrArg List.length (Text.splitBefore?_append hsplit)
  have hstart : IsStart strict opened rest := isStart_of_before (List.takeWhile_cons_of_neg (by decide)) ⟨brackets, hopened, hrest⟩
  refine ⟨rest, ?_, hstart, fun tail _ => ?_⟩
  · simp only [List.length_append, List.length_cons] at hlength ⊢
    omega
  · refine gapEnd_of_behindComment? ?_
    rw [List.cons_append, List.cons_append, behindComment?, Text.splitBefore?_append_of_some hsplit]
    rfl

theorem gap_slash (hnext : ∀ d ∈ text.head?, d ≠ '/' ∧ d ≠ '*') : GapEnds ('/' :: text) := by
  intro tail htail
  have hhead : ∀ d ∈ (text ++ tail).head?, d ≠ '/' ∧ d ≠ '*' := by
    cases text with
    | nil => exact htail.head (by decide)
    | cons d text => exact hnext
  rw [List.cons_append]
  generalize text ++ tail = input at hhead ⊢
  refine gapEnd_of_no_comment rfl ?_
  unfold behindComment?
  split
  · next heq => cases heq; exact absurd rfl (hhead '/' rfl).1
  · next heq => cases heq; exact absurd rfl (hhead '*' rfl).2
  · rfl

theorem gap_cases (htext : IsPlace strict opened text) : GapEnds text ∨ GapGoesOn strict opened text := by
  cases text with
  | nil => exact .inl fun tail htail => gapEnd_of_startsToken htail.startsToken
  | cons c text =>
    by_cases hspace : isSpace c = true
    · exact .inr (gap_space hspace htext)
    by_cases hslash : c = '/'
    case neg => exact .inl fun tail _ => gapEnd_cons (Bool.eq_false_iff.2 hspace) hslash (text ++ tail)
    subst hslash
    by_cases hnext : ∀ d ∈ text.head?, d ≠ '/' ∧ d ≠ '*'
    · exact .inl (gap_slash hnext)
    obtain ⟨d, hd, hne⟩ : ∃ d ∈ text.head?, ¬(d ≠ '/' ∧ d ≠ '*') := by simpa using hnext
    obtain ⟨text, rfl⟩ := List.head?_eq_some_iff.1 hd
    by_cases hline : d = '/'
    · subst hline
      exact gap_lineComment htext
    · obtain rfl : d = '*' := Decidable.byContradiction fun hblock => hne ⟨hline, hblock⟩
      exact .inr (gap_blockComment htext)

/-- A gap ends in the text, at a place of code. -/
theorem IsPlace.exists_gapEnd {text : Text} (htext : IsPlace strict opened text) :
    ∃ rest, (rest = text ∨ IsStart strict opened rest) ∧ ∀ tail, IsEnd tail → gapEnd (text ++ tail) = rest ++ tail := by
  rcases gap_cases htext with hends | ⟨rest, hlt, hrest, hgap⟩
  · exact ⟨text, .inl rfl, hends⟩
  · obtain ⟨rest', hrest', hgap'⟩ := exists_gapEnd hrest.isPlace
    refine ⟨rest', .inr ?_, fun tail htail => (hgap tail htail).trans (hgap' tail htail)⟩
    exact hrest'.elim (fun heq => heq ▸ hrest) id
termination_by text.length

/-! ### Attributes -/

/-- Between brackets stands a text that is closed by itself: behind it no other brackets are open than in front of it. -/
theorem exists_of_inner {accepts : Char → Text → Bool} {opener : Char} {outer inner : List Char} {mode : Scan.Mode}
    {before' : Text} (hopener : opener ≠ '<') (htail : Scan.IsNeutral tail)
    (hbefore : before.takeWhile Scan.isNumberChar = before'.takeWhile Scan.isNumberChar)
    (htext : closesFrom strict (fun _ _ => true) inner mode before' text = true)
    (hclosed : closesFrom strict accepts (inner ++ opener :: outer) mode before (text ++ tail) = true) :
    ∃ before, closesFrom strict accepts (opener :: outer) .code before tail = true := by
  induction text generalizing inner mode before before' with
  | nil =>
    obtain ⟨rfl, rfl⟩ := eq_nil_of_closesFrom htext
    exact ⟨before, hclosed⟩
  | cons c text ih =>
    have hcons : (c :: before).takeWhile Scan.isNumberChar = (c :: before').takeWhile Scan.isNumberChar := by
      rw [List.takeWhile_cons, List.takeWhile_cons, hbefore]
    rw [List.cons_append] at hclosed
    cases hstep : mode.step before' c text with
    | some mode' =>
      have hstep' : mode.step before c (text ++ tail) = some mode' := by
        rw [Scan.Mode.step_append htail, Scan.Mode.step_congr_before hbefore, hstep]
      rw [closesFrom_of_step hstep] at htext
      rw [closesFrom_of_step hstep'] at hclosed
      exact ih hcons htext hclosed
    | none =>
      have hstep' : mode.step before c (text ++ tail) = none := by
        rw [Scan.Mode.step_append htail, Scan.Mode.step_congr_before hbefore, hstep]
      obtain ⟨inner', hbracket, -, htext⟩ := exists_of_closesFrom hstep htext
      obtain ⟨opened', hbracket', -, hclosed⟩ := exists_of_closesFrom hstep' hclosed
      rw [hbracket'.unique (hbracket.append hopener outer)] at hclosed
      exact ih hcons htext hclosed

theorem IsPlace.behind_attribute (htext : IsPlace strict opened ('[' :: '[' :: text)) : ∃ content rest,
    Text.splitBefore? "]]".toList text = some (content, ']' :: ']' :: rest) ∧ IsPlace strict opened rest := by
  obtain ⟨before, brackets, hopened, hclosed⟩ := htext
  obtain ⟨_, hbracket, haccepted, hclosed⟩ := exists_of_closesFrom (Scan.Mode.step_code_of_ne (by decide) before _) hclosed
  rw [hbracket.eq_cons (.inl (by decide))] at hclosed
  obtain ⟨_, hbracket, -, hclosed⟩ := exists_of_closesFrom (Scan.Mode.step_code_of_ne (by decide) _ text) hclosed
  rw [hbracket.eq_cons (.inl (by decide))] at hclosed
  have hattribute : closesAttribute strict '[' ('[' :: text) = true := (Bool.and_eq_true_iff.1 haccepted).1
  rw [closesAttribute] at hattribute
  split at hattribute
  · next content behind hsplit =>
    obtain ⟨rest, rfl⟩ := Text.splitBefore?_begins hsplit
    obtain rfl := Text.splitBefore?_append hsplit
    have hneutral : Scan.IsNeutral ("]]".toList ++ rest) := by rintro c ⟨⟩; decide
    have hinner : closesFrom strict (accepted strict) ([] ++ '[' :: '[' :: brackets) .code ('[' :: '[' :: before)
        (content ++ ("]]".toList ++ rest)) = true := hclosed
    obtain ⟨before', hbehind⟩ := exists_of_inner (by decide) hneutral (by rfl) hattribute hinner
    have hplace : IsPlace strict ('[' :: '[' :: opened) (']' :: ']' :: rest) :=
      ⟨before', '[' :: '[' :: brackets, (hopened.cons_cons _).cons_cons _, hbehind⟩
    have hcode (rest : Text) : Scan.IsCode ']' rest := Scan.isCode_of_ne (by decide) rest
    refine ⟨content, rest, hsplit, ?_⟩
    exact (hplace.behind (hcode _) BracketStep.sublist_of_cons).behind (hcode _) BracketStep.sublist_of_cons
  · cases hattribute

end HeaderOutline
