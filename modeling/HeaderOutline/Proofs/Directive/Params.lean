import HeaderOutline.Proofs.Directive.Piece
import HeaderOutline.Proofs.Grammar
import HeaderOutline.Proofs.Lexeme.Gap
/-!
# Parameter lists in front of more text

A parameter list is read up to its closing parenthesis, and white space that is put behind a text brings none. In a text
without comments the gaps of the list are white space, so that the list is read the same, or not at all, in front of any
tail that begins with white space, if nothing else comes behind the gap that the tail begins with.
-/

namespace HeaderOutline

open HeaderOutline.Parser

namespace Directive

variable {before input rest s t tail : Text} {c : Char}

/-! ### Comment marks behind quotes -/

/-- Every comment mark of the text stands behind a quote. -/
def MarksQuoted (s : Text) : Prop := ∀ front c back, s = front ++ c :: back → BeginsComment c back →
  ∃ quote ∈ front, quote = '"' ∨ quote = '\''

theorem marksQuoted_of_pieces (hs : ∀ piece ∈ pieces before s, piece.kind ≠ .comment) : MarksQuoted s := by
  fun_induction pieces before s with
  | case1 =>
    intro front c back heq
    cases front <;> cases heq
  | case2 before c rest kind n hfirst text ih =>
    obtain ⟨hkind, hothers⟩ := List.forall_mem_cons.1 hs
    have hbegins : ¬BeginsComment c rest := by
      intro hbegins
      have hcomment := firstPiece_of_begins hbegins before
      rw [hfirst] at hcomment
      exact hkind hcomment
    intro front d back heq hmark
    cases front with
    | nil =>
      cases heq
      exact absurd hmark hbegins
    | cons e front =>
      rw [List.cons_append, List.cons.injEq] at heq
      obtain ⟨rfl, rfl⟩ := heq
      rw [firstPiece_of_not_begins hbegins] at hfirst
      cases hliteral : literalLength? before c (front ++ d :: back) with
      | some length => exact ⟨c, List.mem_cons_self, (literalLength?_eq_some hliteral).1⟩
      | none =>
        rw [hliteral] at hfirst
        cases hfirst
        obtain ⟨quote, hmem, hquote⟩ := ih hothers front d back rfl hmark
        exact ⟨quote, List.mem_cons_of_mem c hmem, hquote⟩

theorem MarksQuoted.of_append (hboth : MarksQuoted (s ++ t)) (hs : ∀ c ∈ s, c ≠ '"' ∧ c ≠ '\'') : MarksQuoted t := by
  intro front c back heq hmark
  obtain ⟨quote, hmem, hquote⟩ := hboth (s ++ front) c back (by rw [heq, List.append_assoc]) hmark
  rcases List.mem_append.1 hmem with hmem | hmem
  · obtain ⟨hdouble, hsingle⟩ := hs quote hmem
    rcases hquote with rfl | rfl
    · exact absurd rfl hdouble
    · exact absurd rfl hsingle
  · exact ⟨quote, hmem, hquote⟩

theorem MarksQuoted.of_append_left (hboth : MarksQuoted (s ++ t)) : MarksQuoted s := by
  rintro front c back rfl hmark
  exact hboth front c (back ++ t) (by rw [List.append_assoc, List.cons_append]) (beginsComment_append hmark t)

theorem MarksQuoted.not_begins (hs : MarksQuoted (c :: s)) : ¬BeginsComment c s := by
  intro hmark
  obtain ⟨_, hmem, -⟩ := hs [] c s rfl hmark
  cases hmem

theorem behindComment?_of_not_begins (hbegins : ¬BeginsComment c s) : behindComment? (c :: s) = none := by
  unfold behindComment?
  split
  · next heq =>
    cases heq
    exact absurd ⟨rfl, .inl rfl⟩ hbegins
  · next heq =>
    cases heq
    exact absurd ⟨rfl, .inr rfl⟩ hbegins
  · rfl

theorem gapEnd_of_not_begins (hspace : isSpace c = false) (hbegins : ¬BeginsComment c s) : gapEnd (c :: s) = c :: s :=
  gapEnd_of_no_comment hspace (behindComment?_of_not_begins hbegins)

/-! ### Behind the end of a text -/

/-- White space comes first, and again behind the gap that the text begins with, unless the text ends there. -/
structure IsBlankTail (tail : Text) : Prop where
  head : ∀ c ∈ tail.head?, Text.isBlank c = true
  gapEnd : ∀ c ∈ (gapEnd tail).head?, Text.isBlank c = true

/-- The second text is the first one with the tail. -/
def InFront (tail input input' : Text) : Prop := MarksQuoted input ∧ input' = input ++ tail

/-- The same where a gap has been skipped: in front of its end the first text goes on behind the gap, and at its end the
second one does. -/
def BehindGap (tail input input' : Text) : Prop :=
  MarksQuoted input ∧ (input ≠ [] ∧ input' = input ++ tail ∨ input = [] ∧ input' = HeaderOutline.gapEnd tail)

/-- The one or the other. -/
def Apart (tail input input' : Text) : Prop := InFront tail input input' ∨ BehindGap tail input input'

variable {input' : Text}

/-- At the end of the first text the second one goes on with white space. -/
theorem Apart.cases (htail : IsBlankTail tail) (hinput : Apart tail input input') :
    InFront tail input input' ∨ input = [] ∧ ∀ c ∈ input'.head?, Text.isBlank c = true := by
  rcases hinput with hinput | ⟨hmarks, ⟨-, heq⟩ | ⟨rfl, rfl⟩⟩
  · exact .inl hinput
  · exact .inl ⟨hmarks, heq⟩
  · exact .inr ⟨rfl, htail.gapEnd⟩

theorem IsBlankTail.not_begins_append (htail : IsBlankTail tail) (hbegins : ¬BeginsComment c s) : ¬BeginsComment c (s ++ tail) := by
  cases s with
  | nil =>
    rintro ⟨-, hmark | hmark⟩ <;> exact absurd (htail.head _ hmark) (by decide)
  | cons d s => exact hbegins

theorem InFront.gapEnd (htail : IsBlankTail tail) (hinput : InFront tail input input') :
    BehindGap tail (gapEnd input) (gapEnd input') := by
  obtain ⟨hmarks, rfl⟩ := hinput
  have hspaces : IsSpaces (input.takeWhile isSpace) := isSpaces_takeWhile input
  have hquotes : ∀ c ∈ input.takeWhile isSpace, c ≠ '"' ∧ c ≠ '\'' := by
    intro c hc
    have hspace := hspaces c hc
    constructor <;> rintro rfl <;> exact absurd hspace (by decide)
  rw [← List.takeWhile_append_dropWhile (p := isSpace) (l := input)] at hmarks ⊢
  have hmarks := hmarks.of_append hquotes
  rw [List.append_assoc, gapEnd_append hspaces, gapEnd_append hspaces]
  cases hrest : input.dropWhile isSpace with
  | nil =>
    rw [HeaderOutline.gapEnd]
    exact ⟨hrest ▸ hmarks, .inr ⟨rfl, rfl⟩⟩
  | cons c rest =>
    have hspace : isSpace c = false := by
      have hhead := List.head?_dropWhile_not isSpace input
      rw [hrest] at hhead
      exact hhead
    rw [hrest] at hmarks
    rw [gapEnd_of_not_begins hspace hmarks.not_begins, List.cons_append,
      gapEnd_of_not_begins hspace (htail.not_begins_append hmarks.not_begins)]
    exact ⟨hmarks, .inl ⟨List.cons_ne_nil c rest, rfl⟩⟩

theorem Apart.gapEnd (htail : IsBlankTail tail) (hinput : Apart tail input input') :
    BehindGap tail (gapEnd input) (gapEnd input') := by
  rcases hinput with hinput | ⟨hmarks, ⟨-, heq⟩ | ⟨rfl, rfl⟩⟩
  · exact hinput.gapEnd htail
  · exact InFront.gapEnd htail ⟨hmarks, heq⟩
  · rw [gapEnd_gapEnd, HeaderOutline.gapEnd]
    exact ⟨hmarks, .inr ⟨rfl, rfl⟩⟩

theorem measured_behindGap (tail : Text) : Measured (BehindGap tail) (BehindGap tail) := by
  have htail := (gapEnd_suffix tail).length_le
  rintro input input' rest rest' ⟨-, ⟨hinput, rfl⟩ | ⟨rfl, rfl⟩⟩ ⟨-, ⟨hrest, rfl⟩ | ⟨rfl, rfl⟩⟩
  · rw [List.length_append, List.length_append]
    omega
  · have hpos := List.length_pos_of_ne_nil hinput
    rw [List.length_append, List.length_nil]
    omega
  · rw [List.length_append, List.length_nil]
    omega
  · rw [List.length_nil]
    omega

/-! ### Reading the list -/

variable {α : Type} {p : Parser α}

theorem relates_spaced (htail : IsBlankTail tail) (hp : Relates (Apart tail) (InFront tail) p p) :
    Relates (Apart tail) (BehindGap tail) (spaced p) (spaced p) where
  outcome hinput := by
    have hgap : Relates (InFront tail) (BehindGap tail) skipGap skipGap := ⟨fun hrest => .ok (hrest.gapEnd htail)⟩
    exact (hp.bind fun a => hgap.bind fun _ => .pure a).outcome (.inr (hinput.gapEnd htail))

/-- A character of the list is none that the tail begins with. -/
theorem relates_char (htail : IsBlankTail tail) (hblank : Text.isBlank c = false) (hc : c ≠ '"' ∧ c ≠ '\'') :
    Relates (Apart tail) (InFront tail) (char c) (char c) where
  outcome {input input'} hinput := by
    have hnone {input : Text} (hhead : ∀ c ∈ input.head?, Text.isBlank c = true) : Mismatches (char c) input :=
      char_of_ne fun heq => by
        rw [hhead c heq] at hblank
        cases hblank
    rcases hinput.cases htail with ⟨hmarks, rfl⟩ | ⟨rfl, hhead⟩
    · cases input with
      | nil =>
        obtain ⟨trace, hmismatch⟩ := hnone htail.head
        rw [List.nil_append, hmismatch]
        exact .mismatch
      | cons d rest =>
        rw [List.cons_append, char, char]
        by_cases hd : d = c
        · subst hd
          rw [if_pos rfl, if_pos rfl]
          exact .ok ⟨MarksQuoted.of_append (s := [d]) hmarks (by simpa using hc), rfl⟩
        · rw [if_neg hd, if_neg hd]
          exact .mismatch
    · obtain ⟨trace, hmismatch⟩ := hnone hhead
      rw [hmismatch]
      exact .mismatch

theorem endsWord_of_isBlank (hhead : ∀ c ∈ input.head?, Text.isBlank c = true) : EndsWord input := by
  intro c hc
  refine Bool.eq_false_iff.2 fun hword => ?_
  have hblank := Text.isBlank_of_isWordChar hword
  rw [hhead c hc] at hblank
  cases hblank

theorem relates_identifier (htail : IsBlankTail tail) : Relates (Apart tail) (InFront tail) identifier identifier where
  outcome {input input'} hinput := by
    rcases hinput.cases htail with ⟨hmarks, rfl⟩ | ⟨rfl, hhead⟩
    · rcases identifier_cases input with ⟨trace, hmismatch⟩ | hok
      · obtain ⟨trace', hmismatch'⟩ : Mismatches identifier (input ++ tail) := by
          cases input with
          | nil => exact identifier_of_endsWord (endsWord_of_isBlank htail.head)
          | cons c rest =>
            refine identifier_of_not_start ?_
            rintro d ⟨⟩
            refine Bool.eq_false_iff.2 fun hstart => ?_
            rw [identifier, if_pos hstart] at hmismatch
            cases hmismatch
        rw [hmismatch, hmismatch']
        exact .mismatch
      · rw [hok]
        obtain ⟨heq, hword, hends⟩ := identifier_eq_ok.1 hok
        have hends' : EndsWord (input.dropWhile isWordChar ++ tail) := by
          cases hrest : input.dropWhile isWordChar with
          | nil => exact endsWord_of_isBlank htail.head
          | cons c rest =>
            rw [hrest] at hends
            exact hends
        have hok' := identifier_append hword hends'
        rw [← List.append_assoc, ← heq] at hok'
        rw [hok']
        rw [heq] at hmarks
        refine .ok ⟨hmarks.of_append fun c hc => ?_, rfl⟩
        have hc := isWordChar_of_isIdentifier hword c hc
        constructor <;> rintro rfl <;> exact absurd hc (by decide)
    · obtain ⟨trace, hmismatch⟩ := identifier_of_endsWord (endsWord_of_isBlank hhead)
      rw [hmismatch]
      exact .mismatch

theorem relates_ellipsis (htail : IsBlankTail tail) : Relates (Apart tail) (InFront tail) (literal "...") (literal "...") where
  outcome {input input'} hinput := by
    have hdots {input : Text} (hhead : ∀ c ∈ input.head?, Text.isBlank c = true) : ∀ c ∈ input.head?, c ∉ "...".toList := by
      intro c hc hmem
      have hblank := hhead c hc
      rw [show c = '.' by simpa using hmem] at hblank
      exact absurd hblank (by decide)
    rcases hinput.cases htail with ⟨hmarks, rfl⟩ | ⟨rfl, hhead⟩
    · rw [literal, literal, Text.after?_append (hdots htail.head)]
      cases hafter : Text.after? "...".toList input with
      | none => exact .mismatch
      | some rest =>
        obtain rfl := Text.after?_eq_some_iff.1 hafter
        exact .ok ⟨hmarks.of_append (by decide), rfl⟩
    · have hnone := Text.after?_append (hdots hhead) []
      rw [List.nil_append] at hnone
      rw [literal, literal, hnone]
      exact .mismatch

/-- The names of the list, and what ends each of them. -/
theorem relates_param (htail : IsBlankTail tail) : Relates (Apart tail) (BehindGap tail)
    (spaced (firstOf [identifier, literal "..."])) (spaced (firstOf [identifier, literal "..."])) :=
  relates_spaced htail (.firstOf (.cons (relates_identifier htail) (.cons (relates_ellipsis htail) .nil)))

theorem relates_macroParams (htail : IsBlankTail tail) : Relates (InFront tail) (InFront tail) macroParams macroParams := by
  have hbehind {input input' : Text} (hinput : BehindGap tail input input') : Apart tail input input' := .inr hinput
  have hfront {input input' : Text} (hinput : InFront tail input input') : Apart tail input input' := .inl hinput
  have hitems : Relates (InFront tail) (Apart tail) (sepBy (spaced (char ',')) (spaced (firstOf [identifier, literal "..."])))
      (sepBy (spaced (char ',')) (spaced (firstOf [identifier, literal "..."]))) := by
    have hcomma := relates_spaced htail (relates_char htail (c := ',') (by decide) (by decide))
    refine ⟨fun {input input'} hinput => ?_⟩
    rcases (relates_param htail).cases (hfront hinput) with ⟨_, _, _, hok, hok', hrest⟩ | ⟨_, _, hok, hok'⟩ | ⟨_, _, hok, hok'⟩ <;>
      unfold sepBy <;> rw [hok, hok']
    · have htail := (hcomma.mono hbehind id).sepTail ((relates_param htail).mono hbehind id) (measured_behindGap tail)
      exact ((htail.outcome hrest).mono hbehind).map _
    · exact .ok (hfront hinput)
    · exact .failure
  have hopen := (relates_char htail (c := '(') (by decide) (by decide)).mono hfront id
  have hclose := relates_char htail (c := ')') (by decide) (by decide)
  exact hopen.bind fun _ => hitems.bind fun params => hclose.bind fun _ => .pure params

/-- A parameter list is read the same in front of the tail, and so is what is no parameter list. -/
theorem optMacroParams_append (htail : IsBlankTail tail) (hmarks : MarksQuoted input) {params : Option (List Text)}
    (hread : opt macroParams input = .ok params rest) : opt macroParams (input ++ tail) = .ok params (rest ++ tail) := by
  obtain ⟨rest', hok, -, rfl⟩ := (((relates_macroParams htail).opt id).outcome ⟨hmarks, rfl⟩).exists_ok hread
  exact hok

end Directive

end HeaderOutline
