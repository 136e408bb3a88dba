import HeaderOutline.Lexeme.Expression
/-!
# Scanning in front of more text

A scan looks one character ahead. What it does on a text it also does in front of more text, if that begins with a
character that tells it nothing. The brackets that a scan keeps track of are `bracketsBehind`; `BracketStep` takes apart
what one character does to them.
-/

namespace HeaderOutline

namespace Text

variable {lead mark text tail : Text}

theorem after?_append (htail : ∀ c ∈ tail.head?, c ∉ lead) (text : Text) :
    after? lead (text ++ tail) = (after? lead text).map (· ++ tail) := by
  induction lead generalizing text with
  | nil => rfl
  | cons a lead ih =>
    cases text with
    | nil =>
      cases tail with
      | nil => rfl
      | cons c tail =>
        refine if_neg fun hc => htail c rfl ?_
        rw [hc]
        exact List.mem_cons_self
    | cons c text =>
      simp only [List.cons_append, after?]
      split
      · exact ih (fun d hd hmem => htail d hd (List.mem_cons_of_mem a hmem)) text
      · rfl

/-- The back begins with the mark. -/
theorem splitBefore?_begins {front back : Text} (hsplit : splitBefore? mark text = some (front, back)) : mark <+: back := by
  induction text generalizing front with
  | nil =>
    cases mark with
    | nil => exact List.nil_prefix
    | cons a mark => cases hsplit
  | cons c text ih =>
    rw [splitBefore?] at hsplit
    split at hsplit
    · next hafter =>
      cases hsplit
      obtain ⟨rest, hrest⟩ := Option.isSome_iff_exists.1 hafter
      exact ⟨rest, (after?_eq_some_iff.1 hrest).symm⟩
    · obtain ⟨⟨front', back'⟩, hrest, heq⟩ := Option.map_eq_some_iff.1 hsplit
      cases heq
      exact ih hrest

/-- More text behind a mark brings no earlier one. -/
theorem splitBefore?_append_of_some {front back : Text} (hsplit : splitBefore? mark text = some (front, back)) (tail : Text) :
    splitBefore? mark (text ++ tail) = some (front, back ++ tail) := by
  induction text generalizing front with
  | nil =>
    cases mark with
    | nil =>
      cases hsplit
      cases tail <;> rfl
    | cons a mark => cases hsplit
  | cons c text ih =>
    have hlength : mark.length ≤ (c :: text).length := by
      have hback := congrArg List.length (splitBefore?_append hsplit)
      have hmark := (splitBefore?_begins hsplit).length_le
      rw [List.length_append] at hback
      omega
    have hafter : (after? mark (c :: text ++ tail)).isSome = (after? mark (c :: text)).isSome := by
      refine Bool.eq_iff_iff.2 ⟨fun hsome => ?_, fun hsome => ?_⟩ <;> obtain ⟨rest, hrest⟩ := Option.isSome_iff_exists.1 hsome
      · have hmark : mark <+: c :: text ++ tail := ⟨rest, (after?_eq_some_iff.1 hrest).symm⟩
        obtain ⟨behind, hbehind⟩ := List.prefix_of_prefix_length_le hmark (List.prefix_append _ _) hlength
        rw [after?_eq_some_iff.2 hbehind.symm]
        rfl
      · rw [after?_eq_some_iff.1 hrest, List.append_assoc, after?_eq_some_iff.2 rfl]
        rfl
    rw [splitBefore?] at hsplit
    rw [List.cons_append, splitBefore?, ← List.cons_append, hafter]
    split at hsplit
    · next hsome =>
      cases hsplit
      rw [if_pos hsome]
    · next hnone =>
      obtain ⟨⟨front', back'⟩, hrest, heq⟩ := Option.map_eq_some_iff.1 hsplit
      cases heq
      rw [if_neg hnone, ih hrest]
      rfl

end Text

section Run

variable {property : Char → Bool} {tail : Text}

/-- A run of characters ends with the text if the text behind does not go on with it. -/
theorem takeWhile_append_of_head (htail : ∀ c ∈ tail.head?, property c = false) (text : Text) :
    (text ++ tail).takeWhile property = text.takeWhile property := by
  have hnil : tail.takeWhile property = [] := by
    cases tail with
    | nil => rfl
    | cons c tail => exact List.takeWhile_cons_of_neg (Bool.eq_false_iff.1 (htail c rfl))
  rw [List.takeWhile_append, hnil, List.append_nil]
  split
  · next hall => exact ((List.takeWhile_prefix property).eq_of_length hall).symm
  · rfl

theorem dropWhile_append_of_head (htail : ∀ c ∈ tail.head?, property c = false) (text : Text) :
    (text ++ tail).dropWhile property = text.dropWhile property ++ tail := by
  have htail : tail.dropWhile property = tail := by
    cases tail with
    | nil => rfl
    | cons c tail => exact List.dropWhile_cons_of_neg (Bool.eq_false_iff.1 (htail c rfl))
  rw [List.dropWhile_append, htail]
  split
  · next hempty => rw [List.isEmpty_iff.1 hempty, List.nil_append]
  · rfl

end Run

/-! ### Modes -/

namespace Scan

/-- A text that begins with a character that neither goes on a number nor opens or closes a comment. -/
def IsNeutral (after : Text) : Prop := ∀ c ∈ after.head?, c.isAlphanum = false ∧ c ≠ '/' ∧ c ≠ '*'

theorem isDigitSeparator_of_head {after : Text} (hafter : ∀ c ∈ after.head?, c.isAlphanum = false) (before : Text) :
    isDigitSeparator before after = false := by
  unfold isDigitSeparator
  dsimp only
  split
  · next hnext => rw [hafter _ hnext, Bool.and_false]
  · rfl

variable {tail : Text}

/-- To the character in front of it, a neutral text says as little as the end of the text. -/
theorem Mode.step_append (htail : IsNeutral tail) (mode : Mode) (before : Text) (c : Char) (after : Text) :
    mode.step before c (after ++ tail) = mode.step before c after := by
  cases after with
  | cons d after =>
    cases mode <;> rfl
  | nil =>
    cases tail with
    | nil => rfl
    | cons d tail =>
      obtain ⟨hnumber, hslash, hstar⟩ := htail d rfl
      cases mode with
      | code =>
        have hseparator : isDigitSeparator before (d :: tail) = false := isDigitSeparator_of_head (by rintro e ⟨⟩; exact hnumber) _
        have hend : isDigitSeparator before [] = false := isDigitSeparator_of_head (fun _ h => by cases h) _
        simp only [Mode.step, enter, List.nil_append, hseparator, hend]
        split
        · rfl
        · split
          · rfl
          · split
            · simp only [List.head?_cons, List.head?_nil]
              split
              · next heq => exact absurd (Option.some.inj heq) hslash
              · next heq => exact absurd (Option.some.inj heq) hstar
              · rfl
            · rfl
      | blockComment => simp [Mode.step, hslash]
      | quoted | escaped | lineComment | blockOpening | blockClosing => rfl

/-- Only the number in front of a character counts. -/
theorem Mode.step_congr_before {before before' : Text} (hbefore : before.takeWhile isNumberChar = before'.takeWhile isNumberChar)
    (mode : Mode) (c : Char) (after : Text) : mode.step before c after = mode.step before' c after := by
  cases mode with
  | code =>
    have hseparator : isDigitSeparator before after = isDigitSeparator before' after := by
      unfold isDigitSeparator
      rw [hbefore]
    simp only [Mode.step, enter, hseparator]
  | _ => rfl

/-- Code goes on behind a character that begins neither a literal nor a comment. -/
theorem Mode.step_code_of_ne {c : Char} (hc : c ∉ ['\'', '"', '/']) (before after : Text) : Mode.code.step before c after = none := by
  simp only [List.mem_cons, List.not_mem_nil, or_false, not_or] at hc
  obtain ⟨hquote, hstring, hslash⟩ := hc
  rw [Mode.step, enter, if_neg hquote, if_neg hstring, if_neg hslash]

/-- What is no part of a literal or a comment is code, or the end of a line comment. -/
theorem Mode.eq_code_of_step {mode : Mode} {before after : Text} {c : Char} (hstep : mode.step before c after = none) (hc : c ≠ '\n') :
    mode = .code := by
  cases mode with
  | code => rfl
  | lineComment => rw [Mode.step, if_neg hc] at hstep; cases hstep
  | _ => cases hstep

end Scan

/-! ### Brackets -/

/-- The two brackets of a pair, angle brackets left out. -/
def IsBracketPair (opener closer : Char) : Prop := (opener, closer) ∈ [('(', ')'), ('[', ']'), ('{', '}')]

instance (opener closer : Char) : Decidable (IsBracketPair opener closer) := inferInstanceAs (Decidable (_ ∈ _))

namespace IsBracketPair

variable {opener closer : Char}

theorem cases (hpair : IsBracketPair opener closer) :
    opener = '(' ∧ closer = ')' ∨ opener = '[' ∧ closer = ']' ∨ opener = '{' ∧ closer = '}' := by
  simpa [IsBracketPair] using hpair

theorem opener_mem (hpair : IsBracketPair opener closer) : opener ∈ ['(', '[', '{'] := by
  rcases hpair.cases with ⟨rfl, -⟩ | ⟨rfl, -⟩ | ⟨rfl, -⟩ <;> decide

theorem closer_mem (hpair : IsBracketPair opener closer) : closer ∈ [')', ']', '}'] := by
  rcases hpair.cases with ⟨-, rfl⟩ | ⟨-, rfl⟩ | ⟨-, rfl⟩ <;> decide

theorem opener_eq_iff {opener' closer' : Char} (hpair : IsBracketPair opener closer)
    (hpair' : IsBracketPair opener' closer') : opener = opener' ↔ closer = closer' := by
  rcases hpair.cases with ⟨rfl, rfl⟩ | ⟨rfl, rfl⟩ | ⟨rfl, rfl⟩ <;> rcases hpair'.cases with ⟨rfl, rfl⟩ | ⟨rfl, rfl⟩ | ⟨rfl, rfl⟩ <;> decide

/-- No bracket both opens and closes. -/
theorem opener_ne_closer {opener' closer' : Char} (hpair : IsBracketPair opener closer)
    (hpair' : IsBracketPair opener' closer') : opener ≠ closer' := by
  rcases hpair.cases with ⟨rfl, -⟩ | ⟨rfl, -⟩ | ⟨rfl, -⟩ <;> rcases hpair'.cases with ⟨-, rfl⟩ | ⟨-, rfl⟩ | ⟨-, rfl⟩ <;> decide

theorem opener_ne (hpair : IsBracketPair opener closer) {c : Char} (hc : c ∉ ['(', '[', '{']) : opener ≠ c := by
  rintro rfl
  exact hc hpair.opener_mem

theorem closer_ne (hpair : IsBracketPair opener closer) {c : Char} (hc : c ∉ [')', ']', '}']) : closer ≠ c := by
  rintro rfl
  exact hc hpair.closer_mem

end IsBracketPair

/-- What a character does to the open brackets if it leaves none of them unclosed. Strictly, angle brackets are brackets as
well, but a greater sign that no other one waits for is none. -/
inductive BracketStep (strict : Bool) (c : Char) : List Char → List Char → Prop
  | opens {opened : List Char} (hc : c ∈ ['(', '[', '{']) : BracketStep strict c opened (c :: opened)
  | closes {opener : Char} {outer : List Char} (hpair : IsBracketPair opener c) : BracketStep strict c (opener :: outer) outer
  | opensAngle {opened : List Char} (hstrict : strict = true) (hc : c = '<') : BracketStep strict c opened ('<' :: opened)
  | closesAngle {outer : List Char} (hstrict : strict = true) (hc : c = '>') : BracketStep strict c ('<' :: outer) outer
  | passes {opened : List Char} (hc : c ∉ ['(', '[', '{', ')', ']', '}']) (hless : strict = true → c ≠ '<')
    (hgreater : strict = true → c = '>' → opened.head? ≠ some '<') : BracketStep strict c opened opened

/-- The brackets that are open behind a character, or none if it closes a bracket that is not the innermost one. -/
def bracketStep? (strict : Bool) (opened : List Char) (c : Char) : Option (List Char) :=
  if c ∈ ['(', '[', '{'] ∨ strict = true ∧ c = '<' then some (c :: opened)
  else
    match opened with
    | opener :: outer =>
      if IsBracketPair opener c ∨ strict = true ∧ opener = '<' ∧ c = '>' then some outer
      else if c ∈ [')', ']', '}'] then none else some opened
    | [] => if c ∈ [')', ']', '}'] then none else some []

theorem bracketStep?_eq_some {strict : Bool} {c : Char} {opened opened' : List Char} :
    bracketStep? strict opened c = some opened' ↔ BracketStep strict c opened opened' := by
  constructor
  · intro hstep
    unfold bracketStep? at hstep
    have hpasses (hopener : ¬(c ∈ ['(', '[', '{'] ∨ strict = true ∧ c = '<')) (hcloser : c ∉ [')', ']', '}'])
        (hgreater : strict = true → c = '>' → opened.head? ≠ some '<') : BracketStep strict c opened opened := by
      rw [not_or] at hopener
      refine .passes ?_ (fun hstrict hc => hopener.2 ⟨hstrict, hc⟩) hgreater
      simp_all
    split at hstep
    · next hopener =>
      cases hstep
      rcases hopener with hc | ⟨hstrict, rfl⟩
      · exact .opens hc
      · exact .opensAngle hstrict rfl
    · next hopener =>
      split at hstep
      · next opener outer =>
        split at hstep
        · next hpair =>
          cases hstep
          rcases hpair with hpair | ⟨hstrict, rfl, rfl⟩
          · exact .closes hpair
          · exact .closesAngle hstrict rfl
        · next hpair =>
          split at hstep
          · cases hstep
          · next hcloser =>
            cases hstep
            refine hpasses hopener hcloser fun hstrict hc hhead => hpair (.inr ⟨hstrict, ?_, hc⟩)
            exact Option.some.inj hhead
      · split at hstep
        · cases hstep
        · next hcloser =>
          cases hstep
          exact hpasses hopener hcloser fun _ _ => nofun
  · intro hstep
    unfold bracketStep?
    cases hstep with
    | opens hc => rw [if_pos (.inl hc)]
    | opensAngle hstrict hc => rw [if_pos (.inr ⟨hstrict, hc⟩), hc]
    | @closes opener outer hpair =>
      have hopener : ¬(c ∈ ['(', '[', '{'] ∨ strict = true ∧ c = '<') := by
        rcases hpair.cases with ⟨-, rfl⟩ | ⟨-, rfl⟩ | ⟨-, rfl⟩ <;> simp
      rw [if_neg hopener]
      exact if_pos (.inl hpair)
    | closesAngle hstrict hc =>
      subst hc
      rw [if_neg (by simp)]
      exact if_pos (.inr ⟨hstrict, rfl, rfl⟩)
    | passes hc hless hgreater =>
      have hopener : ¬(c ∈ ['(', '[', '{'] ∨ strict = true ∧ c = '<') := by
        rintro (hmem | ⟨hstrict, heq⟩)
        · simp_all
        · exact hless hstrict heq
      have hcloser : c ∉ [')', ']', '}'] := by simp_all
      rw [if_neg hopener]
      split
      · next opener outer =>
        rw [if_neg, if_neg hcloser]
        rintro (hpair | ⟨hstrict, rfl, hc⟩)
        · exact hcloser hpair.closer_mem
        · exact hgreater hstrict hc rfl
      · rw [if_neg hcloser]

namespace BracketStep

variable {strict : Bool} {c : Char} {opened brackets brackets' : List Char}

theorem unique {other : List Char} (hstep : BracketStep strict c brackets brackets') (hother : BracketStep strict c brackets other) :
    brackets' = other := Option.some.inj ((bracketStep?_eq_some.2 hstep).symm.trans (bracketStep?_eq_some.2 hother))

/-- What is no bracket leaves the open brackets as they are. -/
theorem eq_of_ne (hc : c ∉ ['(', '[', '{', ')', ']', '}', '<', '>']) (hstep : BracketStep strict c brackets brackets') :
    brackets' = brackets := by
  cases hstep with
  | passes => rfl
  | opens hmem => simp_all
  | closes hpair => exact absurd hpair.closer_mem (by simp_all)
  | opensAngle _ heq => simp_all
  | closesAngle _ heq => simp_all

theorem eq_cons (hc : c ∈ ['(', '[', '{'] ∨ strict = true ∧ c = '<') (hstep : BracketStep strict c brackets brackets') :
    brackets' = c :: brackets := hstep.unique (bracketStep?_eq_some.1 (if_pos hc))

/-- One character closes one bracket at most. -/
theorem sublist_of_cons {opener : Char} (hstep : BracketStep strict c brackets brackets')
    (hopened : (opener :: opened).Sublist brackets) : opened.Sublist brackets' := by
  have htail {d : Char} {outer : List Char} (hsub : (opener :: opened).Sublist (d :: outer)) : opened.Sublist outer := by
    cases hsub with
    | cons _ hsub => exact (List.sublist_cons_self opener opened).trans hsub
    | cons_cons _ hsub => exact hsub
  cases hstep with
  | closes => exact htail hopened
  | closesAngle => exact htail hopened
  | opens => exact ((List.sublist_cons_self opener opened).trans hopened).trans (List.sublist_cons_self ..)
  | opensAngle => exact ((List.sublist_cons_self opener opened).trans hopened).trans (List.sublist_cons_self ..)
  | passes => exact (List.sublist_cons_self opener opened).trans hopened

/-- A character closes no other bracket than the one it belongs to. -/
theorem sublist_of_head (hhead : ∀ d ∈ opened.head?, ¬IsBracketPair d c ∧ ¬(d = '<' ∧ c = '>'))
    (hstep : BracketStep strict c brackets brackets') (hopened : opened.Sublist brackets) : opened.Sublist brackets' := by
  cases hstep with
  | opens => exact hopened.trans (List.sublist_cons_self ..)
  | opensAngle => exact hopened.trans (List.sublist_cons_self ..)
  | passes => exact hopened
  | closes hpair =>
    cases hopened with
    | cons _ hsub => exact hsub
    | cons_cons _ _ => exact absurd hpair (hhead _ rfl).1
  | closesAngle _ hc =>
    cases hopened with
    | cons _ hsub => exact hsub
    | cons_cons _ _ => exact absurd ⟨rfl, hc⟩ (hhead _ rfl).2

/-- Behind a bracket other than an angle bracket, brackets match as they do on their own. -/
theorem append {opener : Char} {inner inner' : List Char} (hstep : BracketStep strict c inner inner') (hopener : opener ≠ '<')
    (outer : List Char) : BracketStep strict c (inner ++ opener :: outer) (inner' ++ opener :: outer) := by
  cases hstep with
  | opens hc => exact .opens hc
  | closes hpair => exact .closes hpair
  | opensAngle hstrict hc => exact .opensAngle hstrict hc
  | closesAngle hstrict hc => exact .closesAngle hstrict hc
  | passes hc hless hgreater =>
    refine .passes hc hless fun hstrict heq => ?_
    cases inner with
    | nil => exact fun hhead => hopener (Option.some.inj hhead)
    | cons d inner => exact hgreater hstrict heq

end BracketStep

/-- What is no bracket leaves the open brackets as they are. -/
theorem bracketsBehind_of_ne {c : Char} (hc : c ∉ ['(', '[', '{', ')', ']', '}', '<', '>']) (angles : Bool) (opened : List Char) :
    bracketsBehind angles opened c = some opened := by
  simp only [List.mem_cons, List.not_mem_nil, or_false, not_or] at hc
  unfold bracketsBehind
  dsimp only
  split <;> simp_all

section Brackets

variable {c : Char}

theorem bracketsBehind_opener (hc : c ∈ ['(', '[', '{']) (angles : Bool) (opened : List Char) :
    bracketsBehind angles opened c = some (c :: opened) := by
  simp only [List.mem_cons, List.not_mem_nil, or_false] at hc
  rcases hc with rfl | rfl | rfl <;> rfl

theorem bracketsBehind_closer {opener : Char} (hpair : IsBracketPair opener c) (angles : Bool) (outer : List Char) :
    bracketsBehind angles (opener :: outer) c = some outer := by
  rcases hpair.cases with ⟨rfl, rfl⟩ | ⟨rfl, rfl⟩ | ⟨rfl, rfl⟩ <;> rfl

end Brackets

end HeaderOutline
