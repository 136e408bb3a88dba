import Mathlib.Data.List.Basic
import HeaderOutline.Directive
import HeaderOutline.Proofs.Lexeme.Scan
import HeaderOutline.Proofs.Text.Blank
/-!
# Literals and comments of a replacement text

A replacement text is made of literals, comments and single characters of code, and `uncommented` leaves the comments
out. A directive cuts the text at the first comment mark instead, whatever the mark is part of.
`trim_beforeCommentMark_eq_iff` says when that is the same.
-/

namespace HeaderOutline.Directive

inductive Kind where
  | code
  | literal
  | comment
  deriving DecidableEq, Repr

/-- A literal, a comment, or one character of code. -/
structure Piece where
  kind : Kind
  text : Text
  deriving DecidableEq, Repr

/-- How many characters there are up to the quote that ends a literal, with the quote. Behind a backslash a quote ends
nothing. -/
def quotedLength? (quote : Char) : Text → Option Nat
  | [] => none
  | '\\' :: _ :: rest => (quotedLength? quote rest).map (· + 2)
  | c :: rest => if c = quote then some 1 else (quotedLength? quote rest).map (· + 1)

/-- How many characters there are up to the end of a raw literal: its delimiter and parenthesis come first, and the
parenthesis, the delimiter and a quote end it. -/
def rawLength? (content : Text) : Option Nat :=
  let closer := ')' :: (content.takeWhile (· != '(') ++ ['"'])
  (Text.splitBefore? closer content).map fun (front, _) => front.length + closer.length

/-- The prefix of a raw literal ends here. -/
def isRawPrefix (before : Text) : Bool :=
  ["R", "LR", "uR", "UR", "u8R"].any fun word => word.toList == (before.takeWhile isWordChar).reverse

/-- How many characters of `rest` belong to the literal that `c` opens. A quote that is never closed opens none. -/
def literalLength? (before : Text) (c : Char) (rest : Text) : Option Nat :=
  if c = '"' then if isRawPrefix before then rawLength? rest else quotedLength? '"' rest
  else if c = '\'' ∧ Scan.isDigitSeparator before rest = false then quotedLength? '\'' rest
  else none

/-- The kind of the piece that begins with `c`, and how many characters of `rest` belong to it. A block comment that is
never closed, as a line comment, runs to the end. -/
def firstPiece (before : Text) (c : Char) (rest : Text) : Kind × Nat :=
  if c = '/' ∧ rest.head? = some '/' then (.comment, rest.length)
  else if c = '/' ∧ rest.head? = some '*' then
    match Text.splitBefore? "*/".toList rest.tail with
    | some (front, _) => (.comment, front.length + 3)
    | none => (.comment, rest.length)
  else
    match literalLength? before c rest with
    | some length => (.literal, length)
    | none => (.code, 0)

/-- The pieces of a text behind `before`, nearest character first. -/
def pieces (before : Text) : Text → List Piece
  | [] => []
  | c :: rest =>
    let (kind, length) := firstPiece before c rest
    let text := c :: rest.take length
    ⟨kind, text⟩ :: pieces (text.reverse ++ before) (rest.drop length)
termination_by text => text.length
decreasing_by
  simp only [List.length_drop, List.length_cons]
  omega

/-- What the pieces other than comments make up. -/
def withoutComments (pieces : List Piece) : Text := (pieces.filter (·.kind ≠ .comment)).flatMap (·.text)

/-- The text without its comments. -/
def uncommented (text : Text) : Text := withoutComments (pieces [] text)

/-- Two characters that begin a comment stand somewhere in the text. -/
def HasCommentMark (text : Text) : Prop := ['/', '/'] <:+: text ∨ ['/', '*'] <:+: text

instance (text : Text) : Decidable (HasCommentMark text) := inferInstanceAs (Decidable (_ ∨ _))

/-- From the first comment, or literal with a comment mark, on there are only comments and white space. -/
def CommentsLast (pieces : List Piece) : Prop :=
  ∀ piece ∈ pieces.dropWhile (fun piece => piece.kind ≠ .comment ∧ ¬HasCommentMark piece.text),
    piece.kind = .comment ∨ Text.IsBlank piece.text

instance (pieces : List Piece) : Decidable (CommentsLast pieces) := inferInstanceAs (Decidable (∀ _ ∈ _, _))

variable {before text s t : Text} {c : Char} {rest : Text} {piece : Piece} {ps : List Piece}

/-! ### The first comment mark -/

/-- The first two characters of the text begin a comment. -/
def BeginsComment (c : Char) (rest : Text) : Prop := c = '/' ∧ (rest.head? = some '/' ∨ rest.head? = some '*')

theorem hasCommentMark_cons : HasCommentMark (c :: s) ↔ BeginsComment c s ∨ HasCommentMark s := by
  have hprefix (d : Char) : ['/', d] <+: c :: s ↔ c = '/' ∧ s.head? = some d := by
    rw [List.cons_prefix_cons, eq_comm]
    cases s <;> simp [eq_comm]
  unfold HasCommentMark BeginsComment
  rw [List.infix_cons_iff, List.infix_cons_iff, hprefix, hprefix]
  tauto

theorem beforeCommentMark_of_begins (hbegins : BeginsComment c rest) : beforeCommentMark (c :: rest) = [] := if_pos hbegins

theorem beforeCommentMark_of_not_begins (hbegins : ¬BeginsComment c rest) :
    beforeCommentMark (c :: rest) = c :: beforeCommentMark rest := if_neg hbegins

theorem beforeCommentMark_append (hs : ¬HasCommentMark s) (hend : s.getLast? = some '/' → ¬BeginsComment '/' t) :
    beforeCommentMark (s ++ t) = s ++ beforeCommentMark t := by
  induction s with
  | nil => rfl
  | cons c s ih =>
    rw [hasCommentMark_cons, not_or] at hs
    have hbegins : ¬BeginsComment c (s ++ t) := by
      cases s with
      | nil =>
        rintro ⟨rfl, ht⟩
        exact hend rfl ⟨rfl, ht⟩
      | cons d s => exact hs.1
    rw [List.cons_append, beforeCommentMark_of_not_begins hbegins]
    refine congrArg (c :: ·) (ih hs.2 fun heq => hend ?_)
    rw [List.getLast?_cons, heq]
    rfl

theorem beginsComment_append (hbegins : BeginsComment c s) (t : Text) : BeginsComment c (s ++ t) := by
  obtain ⟨rfl, hs⟩ := hbegins
  cases s with
  | nil => rcases hs with heq | heq <;> cases heq
  | cons d s => exact ⟨rfl, hs⟩

/-- The text is cut at the first mark, whatever is behind it. -/
theorem beforeCommentMark_append_of_mark (hs : HasCommentMark s) (t : Text) :
    beforeCommentMark (s ++ t) = beforeCommentMark s := by
  induction s with
  | nil => rcases hs with hs | hs <;> cases List.eq_nil_of_infix_nil hs
  | cons c s ih =>
    by_cases hbegins : BeginsComment c s
    · rw [List.cons_append, beforeCommentMark_of_begins (beginsComment_append hbegins t), beforeCommentMark_of_begins hbegins]
    · have hmark := (hasCommentMark_cons.1 hs).resolve_left hbegins
      have hboth : ¬BeginsComment c (s ++ t) := by
        cases s with
        | nil => rcases hmark with heq | heq <;> cases List.eq_nil_of_infix_nil heq
        | cons d s => exact hbegins
      rw [List.cons_append, beforeCommentMark_of_not_begins hboth, ih hmark, beforeCommentMark_of_not_begins hbegins]

/-- What is cut off begins with the mark, and is no white space. -/
theorem exists_beforeCommentMark (hs : HasCommentMark s) : ∃ cut, s = beforeCommentMark s ++ cut ∧ ¬Text.IsBlank cut := by
  induction s with
  | nil => rcases hs with hs | hs <;> cases List.eq_nil_of_infix_nil hs
  | cons c s ih =>
    by_cases hbegins : BeginsComment c s
    · refine ⟨c :: s, by rw [beforeCommentMark_of_begins hbegins]; rfl, fun hblank => ?_⟩
      have hslash := hblank c List.mem_cons_self
      rw [hbegins.1] at hslash
      exact absurd hslash (by decide)
    · obtain ⟨cut, heq, hcut⟩ := ih ((hasCommentMark_cons.1 hs).resolve_left hbegins)
      exact ⟨cut, by rw [beforeCommentMark_of_not_begins hbegins, List.cons_append, ← heq], hcut⟩

/-! ### What a text begins with -/

theorem getLast?_take_quotedLength? {quote : Char} {content : Text} {n : Nat} (hquoted : quotedLength? quote content = some n) :
    (content.take n).getLast? = some quote := by
  fun_induction quotedLength? quote content generalizing n with
  | case1 => cases hquoted
  | case2 c rest ih =>
    obtain ⟨m, hm, rfl⟩ := Option.map_eq_some_iff.1 hquoted
    rw [List.take_succ_cons, List.take_succ_cons, List.getLast?_cons, List.getLast?_cons, ih hm]
    rfl
  | case3 =>
    cases hquoted
    rfl
  | case4 c rest _ _ ih =>
    obtain ⟨m, hm, rfl⟩ := Option.map_eq_some_iff.1 hquoted
    rw [List.take_succ_cons, List.getLast?_cons, ih hm]
    rfl

theorem getLast?_take_rawLength? {content : Text} {n : Nat} (hraw : rawLength? content = some n) :
    (content.take n).getLast? = some '"' := by
  obtain ⟨⟨front, back⟩, hsplit, rfl⟩ := Option.map_eq_some_iff.1 hraw
  have hcontent := Text.splitBefore?_append hsplit
  obtain ⟨behind, hback⟩ := Text.splitBefore?_begins hsplit
  rw [← hback, ← List.append_assoc] at hcontent
  have htake (closer : Text) (heq : front ++ closer ++ behind = content) : content.take (front.length + closer.length) = front ++ closer := by
    rw [← heq, ← List.length_append, List.take_left]
  rw [htake _ hcontent, ← List.cons_append, ← List.append_assoc, List.getLast?_concat]

/-- A literal begins and ends with the same quote. -/
theorem literalLength?_eq_some {n : Nat} (hliteral : literalLength? before c rest = some n) :
    (c = '"' ∨ c = '\'') ∧ (rest.take n).getLast? = some c := by
  unfold literalLength? at hliteral
  split at hliteral
  · next hc =>
    subst hc
    refine ⟨.inl rfl, ?_⟩
    split at hliteral
    · exact getLast?_take_rawLength? hliteral
    · exact getLast?_take_quotedLength? hliteral
  · split at hliteral
    · next hc =>
      obtain ⟨rfl, -⟩ := hc
      exact ⟨.inr rfl, getLast?_take_quotedLength? hliteral⟩
    · cases hliteral

theorem firstPiece_of_begins (hbegins : BeginsComment c rest) (before : Text) : (firstPiece before c rest).1 = .comment := by
  unfold firstPiece
  by_cases hline : c = '/' ∧ rest.head? = some '/'
  · rw [if_pos hline]
  · have hblock : c = '/' ∧ rest.head? = some '*' :=
      ⟨hbegins.1, hbegins.2.resolve_left fun hrest => hline ⟨hbegins.1, hrest⟩⟩
    rw [if_neg hline, if_pos hblock]
    split <;> rfl

theorem firstPiece_of_not_begins (hbegins : ¬BeginsComment c rest) (before : Text) : firstPiece before c rest =
    match literalLength? before c rest with
    | some length => (.literal, length)
    | none => (.code, 0) := by
  have hline : ¬(c = '/' ∧ rest.head? = some '/') := fun ⟨hc, hrest⟩ => hbegins ⟨hc, .inl hrest⟩
  have hblock : ¬(c = '/' ∧ rest.head? = some '*') := fun ⟨hc, hrest⟩ => hbegins ⟨hc, .inr hrest⟩
  rw [firstPiece, if_neg hline, if_neg hblock]

/-- No comment mark stands across the end of a literal or of a character of code. -/
theorem firstPiece_ends {kind : Kind} {n : Nat} (hbegins : ¬BeginsComment c rest) (hfirst : firstPiece before c rest = (kind, n)) :
    kind ≠ .comment ∧ ((c :: rest.take n).getLast? = some '/' → ¬BeginsComment '/' (rest.drop n)) := by
  rw [firstPiece_of_not_begins hbegins] at hfirst
  cases hliteral : literalLength? before c rest with
  | none =>
    rw [hliteral] at hfirst
    cases hfirst
    refine ⟨by decide, fun hlast => ?_⟩
    cases hlast
    exact hbegins
  | some m =>
    rw [hliteral] at hfirst
    cases hfirst
    obtain ⟨hquote, hend⟩ := literalLength?_eq_some hliteral
    refine ⟨by decide, fun hlast => ?_⟩
    rw [List.getLast?_cons, hend] at hlast
    cases hlast
    rcases hquote with heq | heq <;> cases heq

/-! ### Cutting and leaving out -/

theorem isBlank_withoutComments : Text.IsBlank (withoutComments ps) ↔ ∀ piece ∈ ps, piece.kind = .comment ∨ Text.IsBlank piece.text := by
  unfold withoutComments Text.IsBlank
  simp only [List.mem_flatMap, List.mem_filter, decide_eq_true_eq]
  constructor
  · intro hall piece hpiece
    by_cases hkind : piece.kind = .comment
    · exact .inl hkind
    · exact .inr fun c hc => hall c ⟨piece, ⟨hpiece, hkind⟩, hc⟩
  · rintro hall c ⟨piece, ⟨hpiece, hkind⟩, hc⟩
    exact (hall piece hpiece).resolve_left hkind c hc

theorem withoutComments_cons_of_comment (hkind : piece.kind = .comment) : withoutComments (piece :: ps) = withoutComments ps := by
  rw [withoutComments, List.filter_cons_of_neg (by simpa using hkind), withoutComments]

theorem withoutComments_cons_of_not (hkind : piece.kind ≠ .comment) :
    withoutComments (piece :: ps) = piece.text ++ withoutComments ps := by
  rw [withoutComments, List.filter_cons_of_pos (by simpa using hkind), List.flatMap_cons, withoutComments]

theorem commentsLast_cons_of_plain (hkind : piece.kind ≠ .comment) (hmark : ¬HasCommentMark piece.text) :
    CommentsLast (piece :: ps) ↔ CommentsLast ps := by
  rw [CommentsLast, List.dropWhile_cons_of_pos (by simpa using ⟨hkind, hmark⟩), CommentsLast]

theorem commentsLast_cons_of_marked (hmarked : piece.kind = .comment ∨ HasCommentMark piece.text) :
    CommentsLast (piece :: ps) ↔ ∀ other ∈ piece :: ps, other.kind = .comment ∨ Text.IsBlank other.text := by
  rw [CommentsLast, List.dropWhile_cons_of_neg (by simpa [Classical.or_iff_not_imp_left] using hmarked)]

theorem exists_withoutComments (before text : Text) : ∃ tail,
    withoutComments (pieces before text) = beforeCommentMark text ++ tail ∧
      (Text.IsBlank tail ↔ CommentsLast (pieces before text)) := by
  fun_induction pieces before text with
  | case1 before => exact ⟨[], rfl, by decide⟩
  | case2 before c rest kind n hfirst text ih =>
    obtain ⟨tail, htail, hlast⟩ := ih
    have htext : c :: rest = text ++ rest.drop n := by rw [List.cons_append, List.take_append_drop]
    by_cases hbegins : BeginsComment c rest
    · -- the cut is made in front of this piece
      have hkind : kind = .comment := by rw [← firstPiece_of_begins hbegins before, hfirst]
      refine ⟨withoutComments (pieces (text.reverse ++ before) (rest.drop n)), ?_, ?_⟩
      · rw [beforeCommentMark_of_begins hbegins, withoutComments_cons_of_comment hkind]
        rfl
      · rw [commentsLast_cons_of_marked (.inl hkind), List.forall_mem_cons, isBlank_withoutComments]
        exact (and_iff_right (.inl hkind)).symm
    · obtain ⟨hkind, hend⟩ := firstPiece_ends hbegins hfirst
      rw [withoutComments_cons_of_not hkind]
      dsimp only
      by_cases hmark : HasCommentMark text
      · -- the cut is made inside of a literal
        obtain ⟨cut, hcut, hblank⟩ := exists_beforeCommentMark hmark
        refine ⟨cut ++ withoutComments (pieces (text.reverse ++ before) (rest.drop n)), ?_, ?_⟩
        · rw [← List.append_assoc, htext, beforeCommentMark_append_of_mark hmark, ← hcut]
        · rw [commentsLast_cons_of_marked (.inr hmark), List.forall_mem_cons]
          refine iff_of_false ?_ ?_
          · intro hall
            exact hblank (Text.isBlank_append.1 hall).1
          · rintro ⟨hcomment | hall, -⟩
            · exact hkind hcomment
            · rw [hcut] at hall
              exact hblank (Text.isBlank_append.1 hall).2
      · refine ⟨tail, ?_, ?_⟩
        · rw [htext, beforeCommentMark_append hmark hend, htail, List.append_assoc]
        · rw [commentsLast_cons_of_plain hkind hmark, hlast]

/-- Cutting a text at its first comment mark is leaving out its comments exactly if nothing else is behind the mark. -/
theorem trim_beforeCommentMark_eq_iff (text : Text) :
    Text.trim (beforeCommentMark text) = Text.trim (uncommented text) ↔ CommentsLast (pieces [] text) := by
  obtain ⟨tail, heq, htail⟩ := exists_withoutComments [] text
  rw [uncommented, heq, Text.trim_eq_trim_append_iff, htail]

end HeaderOutline.Directive
