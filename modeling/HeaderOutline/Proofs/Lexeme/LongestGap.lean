import HeaderOutline.Proofs.Lexeme.Scan
import HeaderOutline.Proofs.Lexeme.WrittenGap
/-!
# Gaps are as long as they can be

What is skipped in front of a token is made up of white space and complete comments, and it goes on as long as one of them
follows. What is left may still look like a comment: one that is never closed, or one whose line breaks off with a carriage
return alone. `gap_eq_ok_iff` says when a gap ends, from the text alone. `gap_eq_textOf_many` says that a gap is a loop over its
pieces, each of them white space, a line comment or a block comment.
-/

namespace HeaderOutline

open HeaderOutline.Parser

variable {input text front behind skipped rest : Text}

/-! ### Marks -/

namespace Text

variable {mark : Text}

theorem isSome_after?_iff : (after? mark text).isSome = true ↔ mark <+: text := by
  rw [Option.isSome_iff_exists]
  exact exists_congr fun tail => after?_eq_some_iff.trans eq_comm

/-- There is a place to split the text if and only if it holds the mark. -/
theorem splitBefore?_eq_none_iff (hmark : mark ≠ []) : splitBefore? mark text = none ↔ ¬mark <:+: text := by
  constructor
  · intro hnone
    induction text with
    | nil => exact fun hinfix => hmark (List.infix_nil.1 hinfix)
    | cons c text ih =>
      rw [splitBefore?] at hnone
      split at hnone
      · cases hnone
      · next hafter =>
        rw [List.infix_cons_iff, ← isSome_after?_iff, not_or]
        exact ⟨hafter, ih (Option.map_eq_none_iff.1 hnone)⟩
  · intro hinfix
    refine Option.eq_none_iff_forall_ne_some.2 fun parts hsplit => hinfix ?_
    rw [← splitBefore?_append hsplit]
    exact (splitBefore?_begins hsplit).isInfix.trans (List.suffix_append ..).isInfix

/-- The text is split at the first mark. -/
theorem splitBefore?_front (hmark : mark ≠ []) (hsplit : splitBefore? mark text = some (front, behind)) :
    ¬mark <:+: front := by
  induction text generalizing front with
  | nil =>
    rw [splitBefore?, if_neg (by rwa [List.isEmpty_iff])] at hsplit
    cases hsplit
  | cons c text ih =>
    rw [splitBefore?] at hsplit
    split at hsplit
    · cases hsplit
      exact fun hinfix => hmark (List.infix_nil.1 hinfix)
    · next hafter =>
      obtain ⟨⟨front', behind'⟩, hrest, heq⟩ := Option.map_eq_some_iff.1 hsplit
      cases heq
      rw [List.infix_cons_iff, not_or]
      refine ⟨fun hprefix => hafter (isSome_after?_iff.2 ?_), ih hrest⟩
      exact hprefix.trans (List.cons_prefix_cons.2 ⟨rfl, ⟨behind, splitBefore?_append hrest⟩⟩)

/-- A text holds a mark, and in front of the first one there is none, or it holds no mark. -/
theorem mark_cases (hmark : mark ≠ []) (text : Text) :
    (∃ front tail, text = front ++ (mark ++ tail) ∧ ¬mark <:+: front) ∨ ¬mark <:+: text := by
  cases hsplit : splitBefore? mark text with
  | none => exact .inr ((splitBefore?_eq_none_iff hmark).1 hsplit)
  | some parts =>
    obtain ⟨tail, htail⟩ := splitBefore?_begins hsplit
    refine .inl ⟨parts.1, tail, ?_, splitBefore?_front hmark hsplit⟩
    rw [htail, splitBefore?_append hsplit]

end Text

/-! ### Lines -/

/-- The text ends here, or the line does. -/
inductive AtLineEnd : Text → Prop
  | endOfText : AtLineEnd []
  | lineFeed (rest : Text) : AtLineEnd ('\n' :: rest)
  | returnAndLineFeed (rest : Text) : AtLineEnd ('\r' :: '\n' :: rest)

/-- The first line break is a carriage return with no line feed behind it. -/
def BreaksOff (line : Text) : Prop :=
  ∃ front tail, line = front ++ '\r' :: tail ∧ (∀ c ∈ front, isInLine c = true) ∧ tail.head? ≠ some '\n'

theorem restOfLine_of_atLineEnd (htext : ∀ c ∈ text, isInLine c = true) (hend : AtLineEnd rest) :
    restOfLine (text ++ rest) = .ok text rest := by
  have hrest : restOfLine rest = .ok [] rest := by
    cases hend <;> rfl
  have happend := restOfLine_append htext hrest
  rwa [List.append_nil] at happend

theorem restOfLine_of_breaksOff (hline : BreaksOff input) : Mismatches restOfLine input := by
  obtain ⟨front, tail, rfl, hfront, htail⟩ := hline
  have hdrop : (front ++ '\r' :: tail).dropWhile isInLine = '\r' :: tail := List.dropWhile_append_of_pos hfront
  rw [Mismatches, restOfLine, hdrop]
  split
  · next heq =>
    cases heq
    exact absurd rfl htail
  · exact ⟨_, rfl⟩
  · next _ hother => exact absurd rfl (hother tail)

/-- A line goes on up to its end, or breaks off. -/
theorem line_cases (input : Text) :
    (∃ text rest, input = text ++ rest ∧ (∀ c ∈ text, isInLine c = true) ∧ AtLineEnd rest) ∨ BreaksOff input := by
  have hsplit : input = input.takeWhile isInLine ++ input.dropWhile isInLine := List.takeWhile_append_dropWhile.symm
  have htext : ∀ c ∈ input.takeWhile isInLine, isInLine c = true := List.all_eq_true.1 List.all_takeWhile
  have hhead := List.head?_dropWhile_not isInLine input
  cases hrest : input.dropWhile isInLine with
  | nil => exact .inl ⟨_, _, hsplit, htext, hrest ▸ .endOfText⟩
  | cons c tail =>
    rw [hrest] at hsplit hhead
    simp only [isInLine, List.head?_cons, Bool.and_eq_false_iff, bne_eq_false_iff_eq] at hhead
    rcases hhead with rfl | rfl
    · by_cases hfeed : tail.head? = some '\n'
      · obtain ⟨more, rfl⟩ := List.head?_eq_some_iff.1 hfeed
        exact .inl ⟨_, _, hsplit, htext, .returnAndLineFeed more⟩
      · exact .inr ⟨_, tail, hsplit, htext, hfeed⟩
    · exact .inl ⟨_, _, hsplit, htext, .lineFeed tail⟩

/-! ### Comments -/

/-- A complete comment in front of what is behind it. A line comment goes up to the end of its line. -/
inductive IsCommentBefore (behind : Text) : Text → Prop
  | line {text : Text} (htext : ∀ c ∈ text, isInLine c = true) (hend : AtLineEnd behind) :
    IsCommentBefore behind ('/' :: '/' :: text)
  | block {content : Text} (hcontent : ¬"*/".toList <:+: content) :
    IsCommentBefore behind ('/' :: '*' :: (content ++ ['*', '/']))

/-- The text may begin like a comment, but with none that is complete. -/
structure BeginsNoComment (input : Text) : Prop where
  line : ∀ text, input = '/' :: '/' :: text → BreaksOff text
  block : ∀ content, input = '/' :: '*' :: content → ¬"*/".toList <:+: content

theorem IsCommentBefore.behindComment?_eq {comment : Text} (hcomment : IsCommentBefore behind comment) :
    behindComment? (comment ++ behind) = some behind := by
  cases hcomment with
  | line htext hend => exact behindComment?_line (restOfLine_of_atLineEnd htext hend)
  | @block content hcontent =>
    have happend : '/' :: '*' :: (content ++ ['*', '/']) ++ behind = '/' :: '*' :: (content ++ '*' :: '/' :: behind) := by simp
    rw [happend, behindComment?_block hcontent]

theorem BeginsNoComment.behindComment?_eq (hinput : BeginsNoComment input) : behindComment? input = none := by
  unfold behindComment?
  split
  · next text =>
    obtain ⟨trace, hmismatch⟩ := restOfLine_of_breaksOff (hinput.line text rfl)
    rw [hmismatch]
  · next content => rw [(Text.splitBefore?_eq_none_iff (by decide)).2 (hinput.block content rfl), Option.map_none]
  · rfl

/-- A text begins with a complete comment, or with none. -/
theorem comment_cases (input : Text) :
    (∃ comment behind, input = comment ++ behind ∧ IsCommentBefore behind comment) ∨ BeginsNoComment input := by
  by_cases hline : ∃ text, input = '/' :: '/' :: text
  · obtain ⟨text, rfl⟩ := hline
    rcases line_cases text with ⟨line, behind, rfl, htext, hend⟩ | hbreaks
    · exact .inl ⟨'/' :: '/' :: line, behind, rfl, .line htext hend⟩
    · refine .inr ⟨fun other heq => ?_, fun content heq => ?_⟩
      · cases heq
        exact hbreaks
      · cases heq
  · by_cases hblock : ∃ content, input = '/' :: '*' :: content
    · obtain ⟨content, rfl⟩ := hblock
      rcases Text.mark_cases (show "*/".toList ≠ [] by decide) content with ⟨front, behind, rfl, hfront⟩ | hnone
      · refine .inl ⟨'/' :: '*' :: (front ++ ['*', '/']), behind, ?_, .block hfront⟩
        rw [List.cons_append, List.cons_append, List.append_assoc]
        rfl
      · refine .inr ⟨fun text heq => ?_, fun other heq => ?_⟩
        · cases heq
        · cases heq
          exact hnone
    · exact .inr ⟨fun text heq => absurd ⟨text, heq⟩ hline, fun content heq => absurd ⟨content, heq⟩ hblock⟩

/-! ### Gaps -/

/-- White space and complete comments in front of what is behind them. -/
inductive IsGapBefore (rest : Text) : Text → Prop
  | nil : IsGapBefore rest []
  | space {c : Char} {gap : Text} (hspace : isSpace c = true) (hgap : IsGapBefore rest gap) : IsGapBefore rest (c :: gap)
  | comment {comment gap : Text} (hcomment : IsCommentBefore (gap ++ rest) comment) (hgap : IsGapBefore rest gap) :
    IsGapBefore rest (comment ++ gap)

/-- Neither white space nor a complete comment follows. -/
structure EndsGap (rest : Text) : Prop extends BeginsNoComment rest where
  space : ∀ c ∈ rest.head?, isSpace c = false

theorem IsGapBefore.gapEnd_eq (hgap : IsGapBefore rest skipped) : gapEnd (skipped ++ rest) = gapEnd rest := by
  induction hgap with
  | nil => rfl
  | space hspace _ ih => rw [List.cons_append, gapEnd, if_pos hspace, ih]
  | comment hcomment _ ih => rw [List.append_assoc, gapEnd_of_behindComment? hcomment.behindComment?_eq, ih]

theorem EndsGap.gapEnd_eq (hrest : EndsGap rest) : gapEnd rest = rest := by
  cases rest with
  | nil => rw [gapEnd]
  | cons c rest => exact gapEnd_of_no_comment (hrest.space c rfl) hrest.behindComment?_eq

/-- What is skipped is a gap, and what is left ends it. -/
theorem exists_gap (input : Text) :
    ∃ skipped, input = skipped ++ gapEnd input ∧ IsGapBefore (gapEnd input) skipped ∧ EndsGap (gapEnd input) := by
  fun_induction gapEnd input with
  | case1 => exact ⟨[], rfl, .nil, ⟨⟨nofun, nofun⟩, nofun⟩⟩
  | case2 c rest hspace ih =>
    obtain ⟨skipped, heq, hgap, hends⟩ := ih
    exact ⟨c :: skipped, congrArg (c :: ·) heq, .space hspace hgap, hends⟩
  | case3 c rest hspace behind hcomment ih =>
    obtain ⟨skipped, heq, hgap, hends⟩ := ih
    rcases comment_cases (c :: rest) with ⟨comment, other, happend, hbefore⟩ | hnone
    · have hother : other = behind := by
        rw [happend, hbefore.behindComment?_eq] at hcomment
        exact Option.some.inj hcomment
      subst hother
      refine ⟨comment ++ skipped, ?_, .comment (heq ▸ hbefore) hgap, hends⟩
      rw [happend, List.append_assoc, ← heq]
    · rw [hnone.behindComment?_eq] at hcomment
      cases hcomment
  | case4 c rest hspace hcomment =>
    rcases comment_cases (c :: rest) with ⟨comment, behind, happend, hbefore⟩ | hnone
    · rw [happend, hbefore.behindComment?_eq] at hcomment
      cases hcomment
    · refine ⟨[], rfl, .nil, ⟨hnone, ?_⟩⟩
      rintro _ ⟨⟩
      exact Bool.eq_false_iff.2 hspace

theorem gap_of_isGapBefore (hgap : IsGapBefore rest skipped) (hrest : EndsGap rest) :
    gap (skipped ++ rest) = .ok skipped rest := by
  apply textOf_of_ok
  rw [skipGap_apply, hgap.gapEnd_eq, hrest.gapEnd_eq]

/-- A gap is what stands in front of a text that ends it, and nothing else. -/
theorem gap_eq_ok_iff : gap input = .ok skipped rest ↔ skipped ++ rest = input ∧ IsGapBefore rest skipped ∧ EndsGap rest := by
  constructor
  · intro hgap
    obtain ⟨taken, hinput, hbefore, hends⟩ := exists_gap input
    generalize gapEnd input = left at hinput hbefore hends
    subst hinput
    rw [gap_of_isGapBefore hbefore hends] at hgap
    cases hgap
    exact ⟨rfl, hbefore, hends⟩
  · rintro ⟨rfl, hbefore, hends⟩
    exact gap_of_isGapBefore hbefore hends

/-! ### The loop -/

def lineComment : Parser Text := textOf do
  let _ ← literal "//"
  restOfLine

def blockComment : Parser Text := textOf do
  let _ ← literal "/*"
  let _ ← takeUntil "*/"
  literal "*/"

/-- White space, as much as there is, or one comment. -/
def gapPiece : Parser Text := firstOf [spaces1, lineComment, blockComment]

theorem lineComment_append {text : Text} (htext : ∀ c ∈ text, isInLine c = true) (hend : AtLineEnd behind) :
    lineComment ('/' :: '/' :: text ++ behind) = .ok ('/' :: '/' :: text) behind := by
  have hmark : literal "//" ('/' :: '/' :: (text ++ behind)) = .ok _ (text ++ behind) := literal_append "//" _
  apply textOf_of_ok
  exact (bind_of_ok hmark).trans (restOfLine_of_atLineEnd htext hend)

theorem blockComment_append {content : Text} (hcontent : ¬"*/".toList <:+: content) (behind : Text) :
    blockComment ('/' :: '*' :: (content ++ ['*', '/']) ++ behind) = .ok ('/' :: '*' :: (content ++ ['*', '/'])) behind := by
  have hopen : literal "/*" ('/' :: '*' :: (content ++ ['*', '/'] ++ behind)) = .ok _ (content ++ ['*', '/'] ++ behind) :=
    literal_append "/*" _
  have huntil : takeUntil "*/" (content ++ ['*', '/'] ++ behind) = .ok content ('*' :: '/' :: behind) := by
    have happend : content ++ ['*', '/'] ++ behind = content ++ '*' :: '/' :: behind := List.append_assoc ..
    rw [happend, takeUntil, splitBefore?_closing hcontent]
  apply textOf_of_ok
  refine (bind_of_ok hopen).trans ((bind_of_ok huntil).trans ?_)
  exact literal_append "*/" behind

theorem lineComment_of_breaksOff (hline : ∀ text, input = '/' :: '/' :: text → BreaksOff text) :
    Mismatches lineComment input := by
  apply Mismatches.textOf
  by_cases hopen : "//".toList <+: input
  · obtain ⟨text, rfl⟩ := hopen
    exact .bind_of_ok (literal_append "//" text) (restOfLine_of_breaksOff (hline text rfl))
  · exact (literal_of_not_begins hopen).bind

theorem blockComment_of_not_closed (hblock : ∀ content, input = '/' :: '*' :: content → ¬"*/".toList <:+: content) :
    Mismatches blockComment input := by
  apply Mismatches.textOf
  by_cases hopen : "/*".toList <+: input
  · obtain ⟨content, rfl⟩ := hopen
    have huntil : Mismatches (takeUntil "*/") content := by
      rw [Mismatches, takeUntil, (Text.splitBefore?_eq_none_iff (by decide)).2 (hblock content rfl)]
      exact ⟨_, rfl⟩
    exact .bind_of_ok (literal_append "/*" content) huntil.bind
  · exact (literal_of_not_begins hopen).bind

/-- A comment that is complete is one piece. -/
theorem IsCommentBefore.gapPiece_append {comment : Text} (hcomment : IsCommentBefore behind comment) :
    gapPiece (comment ++ behind) = .ok comment behind := by
  cases hcomment with
  | @line text htext hend =>
    have hspaces : Mismatches spaces1 ('/' :: '/' :: text ++ behind) := ⟨_, rfl⟩
    rw [gapPiece, firstOf_of_mismatch hspaces, firstOf_of_ok (lineComment_append htext hend)]
  | @block content hcontent =>
    have hspaces : Mismatches spaces1 ('/' :: '*' :: (content ++ ['*', '/']) ++ behind) := ⟨_, rfl⟩
    have hline : Mismatches lineComment ('/' :: '*' :: (content ++ ['*', '/']) ++ behind) :=
      lineComment_of_breaksOff fun text heq => by cases heq
    rw [gapPiece, firstOf_of_mismatch hspaces, firstOf_of_mismatch hline, firstOf_of_ok (blockComment_append hcontent behind)]

/-- Where a gap ends there is no piece. -/
theorem EndsGap.gapPiece (hrest : EndsGap rest) : Mismatches gapPiece rest := by
  have hspaces : Mismatches spaces1 rest := by
    cases rest with
    | nil => exact ⟨_, rfl⟩
    | cons c rest => exact ⟨_, if_neg (Bool.eq_false_iff.1 (hrest.space c rfl))⟩
  exact hspaces.firstOf_cons ((lineComment_of_breaksOff hrest.line).firstOf_cons
    ((blockComment_of_not_closed hrest.block).firstOf_cons .firstOf_nil))

/-- A piece leaves a shorter text, whose gap ends at the same place. -/
theorem exists_pieces_of_piece {piece : Text} (hpiece : gapPiece input = .ok piece behind)
    (hlt : behind.length < input.length) (hend : gapEnd input = gapEnd behind)
    (hpieces : ∃ pieces, many gapPiece behind = .ok pieces (gapEnd behind)) :
    ∃ pieces, many gapPiece input = .ok pieces (gapEnd input) := by
  obtain ⟨pieces, hpieces⟩ := hpieces
  refine ⟨piece :: pieces, ?_⟩
  rw [many_of_ok hpiece hlt, hpieces, hend]
  rfl

/-- Pieces are read one after the other, up to where the gap ends. -/
theorem exists_pieces (input : Text) : ∃ pieces, many gapPiece input = .ok pieces (gapEnd input) := by
  induction hlength : input.length using Nat.strongRecOn generalizing input with
  | ind length ih =>
    subst hlength
    rcases comment_cases input with ⟨comment, behind, rfl, hcomment⟩ | hnone
    · have hbehind := hcomment.behindComment?_eq
      have hlt := length_behindComment?_lt hbehind
      exact exists_pieces_of_piece hcomment.gapPiece_append hlt (gapEnd_of_behindComment? hbehind) (ih _ hlt behind rfl)
    · by_cases hspace : ∃ c ∈ input.head?, isSpace c = true
      · obtain ⟨c, hc, hspace⟩ := hspace
        obtain ⟨rest, rfl⟩ := List.head?_eq_some_iff.1 hc
        have hlt : (rest.dropWhile isSpace).length < (c :: rest).length :=
          Nat.lt_succ_of_le (List.dropWhile_suffix isSpace).length_le
        refine exists_pieces_of_piece (firstOf_of_ok (if_pos hspace)) hlt ?_ (ih _ hlt _ rfl)
        rw [gapEnd, if_pos hspace, gapEnd_dropWhile]
      · have hends : EndsGap input := ⟨hnone, fun c hc => Bool.eq_false_iff.2 fun hc' => hspace ⟨c, hc, hc'⟩⟩
        refine ⟨[], ?_⟩
        rw [many_of_mismatch hends.gapPiece, hends.gapEnd_eq]

/-- A gap is a loop over its pieces. -/
theorem gap_eq_textOf_many : gap = textOf (many gapPiece) := by
  funext input
  obtain ⟨pieces, hpieces⟩ := exists_pieces input
  rw [gap, textOf, textOf, hpieces, skipGap_apply]

/-! ### The longest gap -/

/-- A gap is read from every text. It is made up of white space, line comments up to the end of their lines and block
comments; with what is left it makes up the text; and none is left in front of that, nor anything but a line comment that
breaks off or a block comment that is never closed. -/
theorem gap_longest (input : Text) : ∃ skipped rest, gap input = .ok skipped rest ∧
    skipped ++ rest = input ∧ IsGapBefore rest skipped ∧ gap rest = .ok [] rest ∧
    (∀ c ∈ rest.head?, isSpace c = false) ∧ (∀ line, rest = '/' :: '/' :: line → BreaksOff line) ∧
    ∀ content, rest = '/' :: '*' :: content → ¬"*/".toList <:+: content := by
  obtain ⟨skipped, hinput, hbefore, hends⟩ := exists_gap input
  have hgap : gap input = .ok skipped (gapEnd input) := gap_eq_ok_iff.2 ⟨hinput.symm, hbefore, hends⟩
  have hnothing : gap (gapEnd input) = .ok [] (gapEnd input) := gap_of_isGapBefore .nil hends
  exact ⟨skipped, gapEnd input, hgap, hinput.symm, hbefore, hnothing, hends.space, hends.line, hends.block⟩

/-- The line comment is skipped up to the line feed, and the block comment that follows is never closed. -/
example : gap " // one */\n/* two\t".toList = .ok " // one */\n".toList "/* two\t".toList := by cbv

end HeaderOutline
