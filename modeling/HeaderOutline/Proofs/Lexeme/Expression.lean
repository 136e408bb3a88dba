import HeaderOutline.Proofs.CType.Balanced
import HeaderOutline.Proofs.Lexeme.Scan
import HeaderOutline.Proofs.Text.Blank
/-!
# Expressions in front of a comma

A default value ends at the first comma that stands in no bracket. Angle brackets are none here, since they compare, so
a text is read to its end exactly if its commas stand in parentheses, square brackets or braces.
-/

namespace HeaderOutline

open HeaderOutline.Parser

variable {text rest : Text} {opened : List Char}

/-! ### Commas and brackets -/

/-- A character of code that is neither a bracket other than an angle bracket nor an end. -/
def IsIdle (c : Char) : Prop := c ∉ ['\'', '"', '/', '(', '[', '{', ')', ']', '}', ';', ',']

instance (c : Char) : Decidable (IsIdle c) := inferInstanceAs (Decidable (c ∉ _))

/-- A text whose brackets match. The flag tells whether a comma stands outside of them. -/
inductive Bracketed : Bool → Text → Prop
  | nil : Bracketed false []
  | idle {c : Char} (hc : IsIdle c) : Bracketed false [c]
  | comma : Bracketed true [',']
  | append {inFront behind : Bool} {front back : Text} (hfront : Bracketed inFront front) (hback : Bracketed behind back) :
    Bracketed (inFront || behind) (front ++ back)
  | block {inside : Bool} {opener closer : Char} {text : Text} (hpair : IsBracketPair opener closer)
    (htext : Bracketed inside text) : Bracketed false (opener :: text ++ [closer])

theorem bracketed_of_forall (htext : ∀ c ∈ text, IsIdle c) : Bracketed false text := by
  induction text with
  | nil => exact .nil
  | cons c text ih =>
    have htail := ih fun d hd => htext d (List.mem_cons_of_mem c hd)
    exact .append (.idle (htext c List.mem_cons_self)) htail

theorem Bracketed.append_idle {outside : Bool} {front back : Text} (hfront : Bracketed outside front)
    (hback : ∀ c ∈ back, IsIdle c) : Bracketed outside (front ++ back) := by
  have hall := hfront.append (bracketed_of_forall hback)
  rwa [Bool.or_false] at hall

theorem isIdle_of_isSpace {c : Char} (hc : isSpace c = true) : IsIdle c := by
  intro hmem
  have hnot : ∀ c ∈ ['\'', '"', '/', '(', '[', '{', ')', ']', '}', ';', ','], isSpace c = false := by decide
  rw [hnot c hmem] at hc
  cases hc

/-! ### Stops -/

theorem isStop_comma {c : Char} : isStop [','] c = true ↔ c = ',' := by
  refine ⟨fun hstop => ?_, fun heq => by rw [heq]; decide⟩
  have hlead : leadCharacter c = ',' := by simpa [isStop] using hstop
  unfold leadCharacter at hlead
  split at hlead
  · next byte bytes hbytes =>
    have hvalue := toNat_of_mem_utf8EncodeChar (hbytes ▸ List.mem_cons_self : byte ∈ String.utf8EncodeChar c)
    have hbyte : byte.toNat = 44 := by
      have hlt : byte.toNat < 256 := UInt8.toNat_lt byte
      have hvalid : byte.toNat.isValidChar := .inl (by omega)
      have htoNat := congrArg Char.toNat hlead
      rwa [Char.ofNat, dif_pos hvalid] at htoNat
    have hcode : c.toNat = 44 := by omega
    exact Char.toNat_inj.1 hcode
  · exact hlead

/-- The character neither ends the expression nor is a literal or comment begun by it. -/
theorem expressionFrom_of_bracketsBehind {c : Char} {behind : List Char} (hcode : c ∉ ['\'', '"', '/'])
    (hstop : opened = [] → c ≠ ';' ∧ c ≠ ',') (hbehind : bracketsBehind false opened c = some behind) (before rest : Text) :
    expressionFrom [','] false opened .code before (c :: rest) =
      expressionFrom [','] false behind .code (c :: before) rest := by
  have hgoes : ¬(opened.isEmpty && (c == ';' || isStop [','] c)) = true := by
    intro hends
    obtain ⟨hempty, hends⟩ := Bool.and_eq_true_iff.1 hends
    obtain ⟨hsemicolon, hcomma⟩ := hstop (List.isEmpty_iff.1 hempty)
    rcases (Bool.or_eq_true _ _).mp hends with heq | hstop
    · exact hsemicolon (by simpa using heq)
    · exact hcomma (isStop_comma.1 hstop)
  rw [expressionFrom, Scan.Mode.step_code_of_ne hcode]
  dsimp only
  rw [if_neg hgoes, hbehind]

/-- A text with matching brackets is passed over, unless a comma ends the expression in it. -/
theorem expressionFrom_bracketed {outside : Bool} (htext : Bracketed outside text) (hopened : outside = true → opened ≠ [])
    (before rest : Text) : expressionFrom [','] false opened .code before (text ++ rest) =
      expressionFrom [','] false opened .code (text.reverse ++ before) rest := by
  induction htext generalizing opened before rest with
  | nil => rfl
  | @idle c hc =>
    simp only [IsIdle, List.mem_cons, List.not_mem_nil, or_false, not_or] at hc
    refine expressionFrom_of_bracketsBehind (by simp [hc]) (fun _ => ⟨by simp [hc], by simp [hc]⟩) ?_ before rest
    by_cases hangle : c = '<' ∨ c = '>'
    · rcases hangle with rfl | rfl <;> rfl
    · exact bracketsBehind_of_ne (by simp_all) false opened
  | comma =>
    exact expressionFrom_of_bracketsBehind (by decide) (fun hnil => absurd hnil (hopened rfl))
      (bracketsBehind_of_ne (by decide) false opened) before rest
  | append _ _ ihfront ihback =>
    rw [List.append_assoc, ihfront (fun h => hopened (by rw [h, Bool.true_or])),
      ihback (fun h => hopened (by rw [h, Bool.or_true])), List.reverse_append, List.append_assoc]
  | @block inside opener closer text hpair _ ih =>
    have hbrackets : (opener ∈ ['(', '[', '{'] ∧ opener ∉ ['\'', '"', '/'] ∧ opener ≠ ';' ∧ opener ≠ ',') ∧
        closer ∉ ['\'', '"', '/'] := by
      rcases hpair.cases with ⟨rfl, rfl⟩ | ⟨rfl, rfl⟩ | ⟨rfl, rfl⟩ <;> decide
    obtain ⟨⟨hopener, hopener_code, hopener_stop⟩, hcloser⟩ := hbrackets
    have hopen := expressionFrom_of_bracketsBehind hopener_code (fun _ => hopener_stop)
      (bracketsBehind_opener hopener false opened) before (text ++ [closer] ++ rest)
    have hclose := expressionFrom_of_bracketsBehind hcloser (fun hnil => absurd hnil (List.cons_ne_nil _ _))
      (bracketsBehind_closer hpair false opened) (text.reverse ++ opener :: before) rest
    rw [List.cons_append, List.cons_append, hopen, List.append_assoc, ih (fun _ => List.cons_ne_nil _ _),
      List.singleton_append, hclose]
    simp

/-- In front of the first comma outside of brackets there is none. -/
theorem Bracketed.exists_comma (htext : Bracketed true text) :
    ∃ front back, text = front ++ ',' :: back ∧ Bracketed false front := by
  generalize hflag : true = outside at htext
  induction htext with
  | nil | idle | block => cases hflag
  | comma => exact ⟨[], [], rfl, .nil⟩
  | @append inFront behind front back hfront hback ihfront ihback =>
    cases inFront with
    | true =>
      obtain ⟨text, tail, rfl, htext⟩ := ihfront rfl
      exact ⟨text, tail ++ back, by simp, htext⟩
    | false =>
      obtain ⟨text, tail, rfl, htext⟩ := ihback hflag
      exact ⟨front ++ text, tail, by simp, .append hfront htext⟩

/-! ### White space at the ends -/

/-- No letter is white space. -/
theorem isBlank_of_isWordStart {c : Char} (hc : isWordStart c = true) : Text.isBlank c = false :=
  Text.isBlank_of_isWordChar (isWordChar_of_isWordStart hc)

theorem isBlank_of_isSpace {c : Char} (hc : isSpace c = true) : Text.isBlank c = true := by
  have hspaces : c ∈ [' ', '\t', '\r', '\n'] := by simpa [isSpace, or_assoc] using hc
  have hblanks : ∀ c ∈ [' ', '\t', '\r', '\n'], Text.isBlank c = true := by decide
  exact hblanks c hspaces

theorem length_trim_le (text : Text) : (Text.trim text).length ≤ text.length := by
  have hstart : (Text.trimStart text).length ≤ text.length := (List.dropWhile_suffix _).length_le
  have hend : (Text.trim text).length ≤ (Text.trimStart text).length := by
    rw [Text.trim, Text.trimEnd, Text.dropTail, List.length_reverse]
    have hdrop := (List.dropWhile_suffix Text.isBlank (l := (Text.trimStart text).reverse)).length_le
    rwa [List.length_reverse] at hdrop
  omega

/-! ### Default values -/

/-- A text with its commas in brackets is read up to the comma or parenthesis behind it. -/
theorem expression_append (htext : Bracketed false text) (hfirst : ∀ c ∈ text.head?, Text.isBlank c = false)
    (hlast : ∀ c ∈ text.getLast?, Text.isBlank c = false) (htext_ne : text ≠ []) {spaces : Text} (hspaces : IsSpaces spaces)
    {c : Char} (hc : c ∈ [',', ')']) (rest : Text) :
    expression [','] false (text ++ (spaces ++ c :: rest)) = .ok text (c :: rest) := by
  have hidle : Bracketed false spaces := bracketed_of_forall fun d hd => isIdle_of_isSpace (hspaces d hd)
  have hend (before : Text) : expressionFrom [','] false [] .code before (c :: rest) = (before.reverse, c :: rest) := by
    simp only [List.mem_cons, List.not_mem_nil, or_false] at hc
    rcases hc with rfl | rfl <;> rfl
  have hscan : expressionFrom [','] false [] .code [] (text ++ (spaces ++ c :: rest)) = (text ++ spaces, c :: rest) := by
    rw [expressionFrom_bracketed htext nofun, expressionFrom_bracketed hidle nofun, hend]
    simp
  have hne : ¬text.isEmpty = true := by rwa [List.isEmpty_iff]
  unfold expression
  rw [hscan]
  dsimp only
  rw [Text.trim_append_blank fun d hd => isBlank_of_isSpace (hspaces d hd), Text.trim_of_ends hfirst hlast, if_neg hne]

/-- A text with a comma outside of brackets is not read to its end. -/
theorem expression_ne (htext : Bracketed true text) (tail : Text) {found mid : Text}
    (hread : expression [','] false (text ++ tail) = .ok found mid) : found ≠ text := by
  obtain ⟨front, back, rfl, hfront⟩ := htext.exists_comma
  have hend (before rest : Text) : expressionFrom [','] false [] .code before (',' :: rest) = (before.reverse, ',' :: rest) := rfl
  have hscan : expressionFrom [','] false [] .code [] (front ++ ',' :: back ++ tail) = (front, ',' :: (back ++ tail)) := by
    rw [List.append_assoc, List.cons_append, expressionFrom_bracketed hfront nofun, hend]
    simp
  unfold expression at hread
  rw [hscan] at hread
  dsimp only at hread
  split at hread
  · cases hread
  · cases hread
    intro heq
    have hlength := length_trim_le front
    rw [heq, List.length_append, List.length_cons] at hlength
    omega

end HeaderOutline
