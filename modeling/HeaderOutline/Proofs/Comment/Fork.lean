import HeaderOutline.Comment
import HeaderOutline.Proofs.Lexeme.Fork
/-!
# Comments of a text with two ends

A comment of a closed text ends in it, so that it is read in the same way in front of either end.
-/

namespace HeaderOutline

open HeaderOutline.Parser

variable {ends : EndPair} {strict : Bool} {opened : List Char} {text : Text}

/-! ### Line comments -/

/-- The rest of a line comment from where on the text closes these brackets. -/
def IsInLine (strict : Bool) (opened : List Char) (text : Text) : Prop := ∃ before, Closes strict opened .lineComment before text

/-- The end of a line in front of a place of code. -/
def IsLineEnd (strict : Bool) (opened : List Char) (text : Text) : Prop :=
  ∃ rest, IsPlace strict opened rest ∧ (text = '\n' :: rest ∨ text = '\r' :: '\n' :: rest)

theorem IsPlace.inLine (htext : IsPlace strict opened ('/' :: '/' :: text)) : IsInLine strict opened text := by
  obtain ⟨before, brackets, hopened, hclosed⟩ := htext
  rw [closesFrom_of_step rfl, closesFrom_of_step rfl] at hclosed
  exact ⟨_, brackets, hopened, hclosed⟩

theorem IsInLine.behind {c : Char} (hc : c ≠ '\n') (htext : IsInLine strict opened (c :: text)) : IsInLine strict opened text := by
  obtain ⟨before, brackets, hopened, hclosed⟩ := htext
  rw [closesFrom_of_step (by rw [Scan.Mode.step, if_neg hc])] at hclosed
  exact ⟨_, brackets, hopened, hclosed⟩

theorem restOfLine_blind : Blind ends (IsInLine strict opened) (IsLineEnd strict opened) restOfLine where
  cases htext := by
    obtain ⟨before, brackets, hopened, hclosed⟩ := htext
    obtain ⟨line, before', rest, rfl, hline, hrest⟩ := exists_of_lineComment hclosed
    have hplace : IsPlace strict opened rest := ⟨_, brackets, hopened, hrest⟩
    rcases restOfLine_append_lineFeed hline with ⟨comment, spaces, hspaces, hread⟩ | hmismatch
    · refine .inl ⟨comment, spaces ++ '\n' :: rest, ⟨rest, hplace, ?_⟩, fun tail _ => ?_⟩
      · simp only [List.mem_cons, List.not_mem_nil, or_false] at hspaces
        rcases hspaces with rfl | rfl
        · exact .inl rfl
        · exact .inr rfl
      · rw [List.append_assoc, List.cons_append, hread, List.append_assoc, List.cons_append]
    · refine .inr fun tail _ => ?_
      rw [List.append_assoc, List.cons_append]
      exact hmismatch (rest ++ tail)

theorem optLineEnding_blind : Blind ends (IsLineEnd strict opened) (IsPlace strict opened) (opt lineEnding) where
  cases htext := by
    obtain ⟨rest, hrest, rfl | rfl⟩ := htext <;> exact .inl ⟨_, rest, hrest, fun _ _ => rfl⟩

theorem oneLine_forks : Forks ends (IsPlace strict opened) (IsPlace strict opened) Comment.oneLine Comment.oneLine := by
  have hmark (word : String) (hword : ∀ c ∈ [';', ',', '\x7b', '\x7d'], c ∉ word.toList)
      (hrest : ∀ {rest}, IsPlace strict opened (word.toList ++ rest) → IsInLine strict opened rest) :
      Forks ends (IsPlace strict opened) (IsInLine strict opened) (literal word) (literal word) :=
    (literal_blind hword hrest).forks
  exact (Relates.firstOf (.cons (hmark "///" (by decide) fun htext => htext.inLine.behind (by decide))
    (.cons (hmark "//!" (by decide) fun htext => htext.inLine.behind (by decide))
      (.cons (hmark "//" (by decide) IsPlace.inLine) .nil)))).bind fun _ =>
    restOfLine_blind.forks.bind fun _ => optLineEnding_blind.forks.bind fun _ => .pure _

/-! ### Block comments -/

/-- The inside of a block comment from where on the text closes these brackets. -/
def IsInBlock (strict : Bool) (opened : List Char) (text : Text) : Prop := ∃ before, Closes strict opened .blockComment before text

theorem IsPlace.inBlock (htext : IsPlace strict opened ('/' :: '*' :: text)) : IsInBlock strict opened text := by
  obtain ⟨before, brackets, hopened, hclosed⟩ := htext
  rw [closesFrom_of_step rfl, closesFrom_of_step rfl] at hclosed
  exact ⟨_, brackets, hopened, hclosed⟩

theorem blockLines_forks : Forks ends (IsPlace strict opened) (IsPlace strict opened) Comment.blockLines Comment.blockLines := by
  have hopener : Blind ends (IsPlace strict opened) (IsInBlock strict opened) (literal "/*") :=
    literal_blind (by decide) IsPlace.inBlock
  have hcontent : Blind ends (IsInBlock strict opened) (fun text => ∃ rest, IsPlace strict opened rest ∧ text = '*' :: '/' :: rest)
      (takeUntil "*/") := by
    constructor
    rintro text ⟨before, brackets, hopened, hclosed⟩
    obtain ⟨content, before', rest, hsplit, hrest⟩ := exists_of_blockComment hclosed
    refine .inl ⟨content, '*' :: '/' :: rest, ⟨rest, ⟨_, brackets, hopened, hrest⟩, rfl⟩, fun tail _ => ?_⟩
    rw [takeUntil, Text.splitBefore?_append_of_some hsplit]
  have hcloser : Blind ends (fun text => ∃ rest, IsPlace strict opened rest ∧ text = '*' :: '/' :: rest) (IsPlace strict opened)
      (literal "*/") := by
    constructor
    rintro text ⟨rest, hrest, rfl⟩
    exact .inl ⟨"*/".toList, rest, hrest, fun tail _ => literal_append "*/" (rest ++ tail)⟩
  exact hopener.forks.bind fun _ => hcontent.forks.bind fun _ => hcloser.forks.bind fun _ => .pure _

/-! ### Comments in front of declarations -/

theorem comment_forks : Forks ends (IsPlace strict opened) (IsPlace strict opened) comment comment := by
  have hline : Forks ends (IsPlace strict opened) (IsPlace strict opened) (do let _ ← spaces0; Comment.oneLine)
      (do let _ ← spaces0; Comment.oneLine) := spaces0_blind.forks.bind fun _ => oneLine_forks
  exact (Relates.firstOf (.cons (Relates.many1 hline hline Fork.measured) (.cons blockLines_forks .nil))).bind fun _ => .pure _

theorem leadingComment_forks : Forks ends (IsPlace strict opened) (IsPlace strict opened) leadingComment leadingComment :=
  spaces0_blind.forks.bind fun _ => (Forks.opt comment_forks id).bind fun _ => SkipsGap.blind.forks.bind fun _ => .pure _

end HeaderOutline
