import Mathlib.Data.List.Induction
import HeaderOutline.Proofs.Lexeme.Scan
/-!
# Literals and comments

A scan over raw source text skips literals, comments and the marks that separate digits. What these are is said here from
the text alone: a literal is a quote and what stands behind it, with escapes of two characters, and a comment is its two
opening characters and what stands behind those. One that does not end takes the whole rest of the text. `exists_skips` says that
at each place of a text there is such a piece or a character of code.
-/

namespace HeaderOutline.Scan

variable {before before' piece rest rest' text : Text} {quote c : Char} {ended : Bool}

/-- The characters behind an opening quote, up to the quote that closes the literal if it is `ended`, or else up to the end of
the text. A backslash takes the next character with it. -/
inductive Quoted (quote : Char) : Bool → Text → Prop
  | close : Quoted quote true [quote]
  | plain {ended : Bool} {c : Char} {text : Text} (hquote : c ≠ quote) (hslash : c ≠ '\\') (htext : Quoted quote ended text) :
    Quoted quote ended (c :: text)
  | escape {ended : Bool} {c : Char} {text : Text} (htext : Quoted quote ended text) : Quoted quote ended ('\\' :: c :: text)
  | runsOut : Quoted quote false []
  | runsOutEscaping : Quoted quote false ['\\']

/-- The characters behind the opening of a block comment, up to the first `*/` if it is `ended`, or else up to the end of the
text. -/
inductive Commented : Bool → Text → Prop
  | close : Commented true ['*', '/']
  | plain {ended : Bool} {c : Char} {text : Text} (hc : c = '*' → text.head? ≠ some '/') (htext : Commented ended text) :
    Commented ended (c :: text)
  | runsOut : Commented false []

/-- A scan skips the piece, which stands between `before` and `rest`: a mark that separates digits, a literal, or a comment. -/
inductive Skips (before : Text) : (piece rest : Text) → Prop
  | separator {rest : Text} (hmark : isDigitSeparator before rest = true) : Skips before ['\''] rest
  | character {ended : Bool} {text rest : Text} (hmark : isDigitSeparator before (text ++ rest) = false)
    (htext : Quoted '\'' ended text) (hended : ended = false → rest = []) : Skips before ('\'' :: text) rest
  | string {ended : Bool} {text rest : Text} (htext : Quoted '"' ended text) (hended : ended = false → rest = []) :
    Skips before ('"' :: text) rest
  | lineComment {text rest : Text} (htext : '\n' ∉ text) (hrest : ∀ c ∈ rest.head?, c = '\n') :
    Skips before ('/' :: '/' :: text) rest
  | blockComment {ended : Bool} {text rest : Text} (htext : Commented ended text) (hended : ended = false → rest = []) :
    Skips before ('/' :: '*' :: text) rest

/-- The character begins neither a literal nor a comment, nor does it separate digits. -/
def IsCode (c : Char) (rest : Text) : Prop :=
  c ≠ '\'' ∧ c ≠ '"' ∧ (c = '/' → rest.head? ≠ some '/' ∧ rest.head? ≠ some '*')

/-! ### Pieces -/

theorem Skips.ne_nil (hpiece : Skips before piece rest) : piece ≠ [] := by
  cases hpiece <;> exact List.cons_ne_nil _ _

theorem exists_quoted (quote : Char) (text : Text) :
    ∃ ended inside rest, text = inside ++ rest ∧ Quoted quote ended inside ∧ (ended = false → rest = []) := by
  induction text using List.twoStepInduction with
  | nil => exact ⟨false, [], [], rfl, .runsOut, fun _ => rfl⟩
  | singleton c =>
    by_cases hquote : c = quote
    · subst hquote
      exact ⟨true, [c], [], rfl, .close, by simp⟩
    · by_cases hslash : c = '\\'
      · subst hslash
        exact ⟨false, ['\\'], [], rfl, .runsOutEscaping, fun _ => rfl⟩
      · exact ⟨false, [c], [], rfl, .plain hquote hslash .runsOut, fun _ => rfl⟩
  | cons_cons c d text ih ihcons =>
    by_cases hquote : c = quote
    · subst hquote
      exact ⟨true, [c], d :: text, rfl, .close, by simp⟩
    · by_cases hslash : c = '\\'
      · subst hslash
        obtain ⟨ended, inside, rest, rfl, hinside, hended⟩ := ih
        exact ⟨ended, '\\' :: d :: inside, rest, rfl, .escape hinside, hended⟩
      · obtain ⟨ended, inside, rest, heq, hinside, hended⟩ := ihcons d
        refine ⟨ended, c :: inside, rest, ?_, .plain hquote hslash hinside, hended⟩
        rw [heq, List.cons_append]

theorem exists_commented (text : Text) :
    ∃ ended inside rest, text = inside ++ rest ∧ Commented ended inside ∧ (ended = false → rest = []) := by
  induction text with
  | nil => exact ⟨false, [], [], rfl, .runsOut, fun _ => rfl⟩
  | cons c text ih =>
    by_cases hclose : c = '*' ∧ text.head? = some '/'
    · obtain ⟨rfl, hslash⟩ := hclose
      obtain ⟨rest, rfl⟩ := List.head?_eq_some_iff.1 hslash
      exact ⟨true, ['*', '/'], rest, rfl, .close, by simp⟩
    · obtain ⟨ended, inside, rest, rfl, hinside, hended⟩ := ih
      refine ⟨ended, c :: inside, rest, rfl, .plain (fun hc hslash => hclose ⟨hc, ?_⟩) hinside, hended⟩
      rw [List.head?_append, hslash, Option.some_or]

/-- A text begins with a character of code, or with a piece that a scan skips. -/
theorem exists_skips (before : Text) (c : Char) (text : Text) :
    IsCode c text ∨ ∃ piece rest, c :: text = piece ++ rest ∧ Skips before piece rest := by
  by_cases hcharacter : c = '\''
  · right
    subst hcharacter
    cases hmark : isDigitSeparator before text with
    | true => exact ⟨['\''], text, rfl, .separator hmark⟩
    | false =>
      obtain ⟨ended, inside, rest, rfl, hinside, hended⟩ := exists_quoted '\'' text
      exact ⟨'\'' :: inside, rest, rfl, .character hmark hinside hended⟩
  by_cases hstring : c = '"'
  · right
    subst hstring
    obtain ⟨ended, inside, rest, rfl, hinside, hended⟩ := exists_quoted '"' text
    exact ⟨'"' :: inside, rest, rfl, .string hinside hended⟩
  by_cases hline : c = '/' ∧ text.head? = some '/'
  · right
    obtain ⟨rfl, hslash⟩ := hline
    obtain ⟨text, rfl⟩ := List.head?_eq_some_iff.1 hslash
    refine ⟨'/' :: '/' :: text.takeWhile (· != '\n'), text.dropWhile (· != '\n'), ?_, .lineComment ?_ ?_⟩
    · rw [List.cons_append, List.cons_append, List.takeWhile_append_dropWhile]
    · intro hmem
      have hfeed := List.all_eq_true.1 (List.all_takeWhile (p := (· != '\n')) (l := text)) '\n' hmem
      simp at hfeed
    · intro d hd
      have hfeed := List.head?_dropWhile_not (· != '\n') text
      rw [hd] at hfeed
      simpa using hfeed
  by_cases hblock : c = '/' ∧ text.head? = some '*'
  · right
    obtain ⟨rfl, hstar⟩ := hblock
    obtain ⟨text, rfl⟩ := List.head?_eq_some_iff.1 hstar
    obtain ⟨ended, inside, rest, rfl, hinside, hended⟩ := exists_commented text
    exact ⟨'/' :: '*' :: inside, rest, rfl, .blockComment hinside hended⟩
  · left
    exact ⟨hcharacter, hstring, fun hc => ⟨fun hslash => hline ⟨hc, hslash⟩, fun hstar => hblock ⟨hc, hstar⟩⟩⟩

/-! ### The text behind a piece -/

/-- Of the text behind it, a mark between digits sees the first character. -/
theorem isDigitSeparator_of_head? (hrest : rest.head? = rest'.head?) (before : Text) :
    isDigitSeparator before rest = isDigitSeparator before rest' := by
  simp only [isDigitSeparator, hrest]

/-- Nothing is skipped differently if only the first character of the text behind is the same. -/
theorem Skips.of_head? (hrest : rest.head? = rest'.head?) (hpiece : Skips before piece rest) : Skips before piece rest' := by
  have hnil (hnil : rest = []) : rest' = [] := by
    rw [hnil] at hrest
    exact List.head?_eq_none_iff.1 hrest.symm
  cases hpiece with
  | separator hmark =>
    rw [isDigitSeparator_of_head? hrest] at hmark
    exact .separator hmark
  | @character ended text _ hmark htext hended =>
    have hhead : (text ++ rest).head? = (text ++ rest').head? := by rw [List.head?_append, List.head?_append, hrest]
    rw [isDigitSeparator_of_head? hhead] at hmark
    exact .character hmark htext fun hopen => hnil (hended hopen)
  | string htext hended => exact .string htext fun hopen => hnil (hended hopen)
  | lineComment htext hfeed => exact .lineComment htext (hrest ▸ hfeed)
  | blockComment htext hended => exact .blockComment htext fun hopen => hnil (hended hopen)

theorem IsCode.of_head? (hrest : rest.head? = rest'.head?) (hc : IsCode c rest) : IsCode c rest' := by
  rwa [IsCode, ← hrest]

/-- What is no quote and no slash is code, whatever stands behind it. -/
theorem isCode_of_ne (hc : c ∉ ['\'', '"', '/']) (rest : Text) : IsCode c rest := by
  simp only [List.mem_cons, List.not_mem_nil, or_false, not_or] at hc
  exact ⟨hc.1, hc.2.1, fun heq => absurd heq hc.2.2⟩

/-! ### Modes -/

theorem IsCode.step (hc : IsCode c rest) (before : Text) : Mode.code.step before c rest = none := by
  obtain ⟨hcharacter, hstring, hslash⟩ := hc
  rw [Mode.step, enter, if_neg hcharacter, if_neg hstring]
  split
  · next heq =>
    obtain ⟨hline, hblock⟩ := hslash heq
    split
    · next hnext => exact absurd hnext hline
    · next hnext => exact absurd hnext hblock
    · rfl
  · rfl

end HeaderOutline.Scan
