import HeaderOutline.Proofs.Lexeme
/-!
# Gaps as they are written

White space and complete comments, one behind the other. A gap is passed over whatever stands behind it.
-/

namespace HeaderOutline

open HeaderOutline.Parser

variable {gap rest : Text}

/-! ### Comments -/

theorem restOfLine_cons {c : Char} {line text : Text} (hc : isInLine c = true) (hline : restOfLine line = .ok text rest) :
    restOfLine (c :: line) = .ok (c :: text) rest := by
  unfold restOfLine at hline ⊢
  rw [List.dropWhile_cons_of_pos hc, List.takeWhile_cons_of_pos hc]
  split at hline <;> cases hline <;> rfl

theorem restOfLine_append {line : Text} (hline : ∀ c ∈ line, isInLine c = true) {text mid : Text}
    (hmid : restOfLine mid = .ok text rest) : restOfLine (line ++ mid) = .ok (line ++ text) rest := by
  induction line with
  | nil => exact hmid
  | cons c line ih =>
    exact restOfLine_cons (hline c List.mem_cons_self) (ih fun d hd => hline d (List.mem_cons_of_mem c hd))

theorem behindComment?_line {line text : Text} (hline : restOfLine line = .ok text rest) :
    behindComment? ('/' :: '/' :: line) = some rest := by
  simp only [behindComment?, hline]

/-- A text that holds no end of a comment is passed, unless its last character makes one up with the next. -/
theorem splitBefore?_closing_append {front text before mark : Text} (hfront : ¬"*/".toList <:+: front)
    (hmeet : front.getLast? = some '*' → text.head? ≠ some '/')
    (hsplit : Text.splitBefore? "*/".toList text = some (before, mark)) :
    Text.splitBefore? "*/".toList (front ++ text) = some (front ++ before, mark) := by
  induction front with
  | nil => exact hsplit
  | cons c front ih =>
    have hnone : ¬(Text.after? "*/".toList (c :: (front ++ text))).isSome = true := by
      intro hsome
      obtain ⟨tail, htail⟩ := Option.isSome_iff_exists.1 hsome
      obtain ⟨rfl, hslash⟩ := List.cons_eq_cons.1 (Text.after?_eq_some_iff.1 htail)
      cases front with
      | nil =>
        refine hmeet rfl ?_
        rw [List.nil_append] at hslash
        rw [hslash]
        rfl
      | cons d front =>
        obtain ⟨rfl, -⟩ := List.cons_eq_cons.1 hslash
        exact hfront ⟨[], front, rfl⟩
    have htail : front.getLast? = some '*' → text.head? ≠ some '/' := fun hlast => hmeet (by rw [List.getLast?_cons, hlast]; rfl)
    rw [List.cons_append, Text.splitBefore?, if_neg hnone, ih (fun hinside => hfront (List.infix_cons hinside)) htail]
    rfl

/-- A content without a closing mark ends at the first one behind it. -/
theorem splitBefore?_closing {content : Text} (hcontent : ¬"*/".toList <:+: content) (rest : Text) :
    Text.splitBefore? "*/".toList (content ++ '*' :: '/' :: rest) = some (content, '*' :: '/' :: rest) := by
  have hmark : Text.splitBefore? "*/".toList ('*' :: '/' :: rest) = some ([], '*' :: '/' :: rest) := rfl
  have hstar : ('*' :: '/' :: rest).head? ≠ some '/' := head?_cons_ne (by decide) _
  have hsplit := splitBefore?_closing_append hcontent (fun _ => hstar) hmark
  rwa [List.append_nil] at hsplit

theorem behindComment?_block {content : Text} (hcontent : ¬"*/".toList <:+: content) (rest : Text) :
    behindComment? ('/' :: '*' :: (content ++ '*' :: '/' :: rest)) = some rest := by
  simp only [behindComment?, splitBefore?_closing hcontent rest]
  rfl

/-! ### Gaps -/

/-- White space and complete comments. A line comment is complete with its line ending. -/
inductive IsGap : Text → Prop
  | nil : IsGap []
  | space {c : Char} {gap : Text} (hspace : isSpace c = true) (hgap : IsGap gap) : IsGap (c :: gap)
  | lineComment {line ending gap : Text} (hline : ∀ c ∈ line, isInLine c = true) (hending : ending ∈ [['\n'], ['\r', '\n']])
    (hgap : IsGap gap) : IsGap ('/' :: '/' :: (line ++ (ending ++ gap)))
  | blockComment {content gap : Text} (hcontent : ¬"*/".toList <:+: content) (hgap : IsGap gap) :
    IsGap ('/' :: '*' :: (content ++ '*' :: '/' :: gap))

theorem IsSpaces.isGap {spaces : Text} (hspaces : IsSpaces spaces) : IsGap spaces := by
  induction spaces with
  | nil => exact .nil
  | cons c spaces ih => exact .space (hspaces c List.mem_cons_self) (ih fun d hd => hspaces d (List.mem_cons_of_mem c hd))

namespace IsGap

variable (hgap : IsGap gap)

include hgap

theorem gapEnd_eq (rest : Text) : gapEnd (gap ++ rest) = gapEnd rest := by
  induction hgap with
  | nil => rfl
  | space hspace _ ih => rw [List.cons_append, gapEnd, if_pos hspace, ih]
  | @lineComment line ending gap hline hending _ ih =>
    have hspaces : IsSpaces ending := by
      revert ending
      decide
    have hend : restOfLine (ending ++ (gap ++ rest)) = .ok [] (ending ++ (gap ++ rest)) := by
      simp only [List.mem_cons, List.not_mem_nil, or_false] at hending
      rcases hending with rfl | rfl <;> rfl
    have htext : '/' :: '/' :: (line ++ (ending ++ gap)) ++ rest = '/' :: '/' :: (line ++ (ending ++ (gap ++ rest))) := by simp
    rw [htext, gapEnd_of_behindComment? (behindComment?_line (restOfLine_append hline hend)), gapEnd_append hspaces, ih]
  | @blockComment content gap hcontent _ ih =>
    have htext : '/' :: '*' :: (content ++ '*' :: '/' :: gap) ++ rest =
        '/' :: '*' :: (content ++ '*' :: '/' :: (gap ++ rest)) := by simp
    rw [htext, gapEnd_of_behindComment? (behindComment?_block hcontent _), ih]

theorem gapEnd_token (hrest : StartsToken rest) : gapEnd (gap ++ rest) = rest := by
  rw [hgap.gapEnd_eq, gapEnd_of_startsToken hrest]

/-- The first character of a gap. -/
theorem head? : ∀ c ∈ gap.head?, isSpace c = true ∨ c = '/' := by
  cases hgap with
  | nil => nofun
  | space hspace =>
    rintro c ⟨⟩
    exact .inl hspace
  | lineComment | blockComment =>
    rintro c ⟨⟩
    exact .inr rfl

/-- A word ends in front of a gap. -/
theorem endsWord (hrest : gap = [] → EndsWord rest) : EndsWord (gap ++ rest) := by
  cases gap with
  | nil => exact hrest rfl
  | cons c gap =>
    rintro d ⟨⟩
    rcases hgap.head? c rfl with hspace | rfl
    · exact isWordChar_of_isSpace hspace
    · decide

/-- Where a token begins at once, there is no gap in front of it. -/
theorem eq_nil {c : Char} {text : Text} (hspace : isSpace c = false) (hslash : c ≠ '/') (heq : gap ++ rest = c :: text) :
    gap = [] := by
  cases gap with
  | nil => rfl
  | cons d gap =>
    obtain ⟨rfl, -⟩ := List.cons_eq_cons.1 heq
    rcases hgap.head? d rfl with hd | hd
    · rw [hspace] at hd
      cases hd
    · exact absurd hd hslash

/-- No word begins behind the white space at the front of a gap. -/
theorem endsWord_dropWhile (hrest : EndsWord (rest.dropWhile isSpace)) : EndsWord ((gap ++ rest).dropWhile isSpace) := by
  induction hgap with
  | nil => exact hrest
  | space hspace _ ih => rwa [List.cons_append, List.dropWhile_cons_of_pos hspace]
  | lineComment | blockComment =>
    rw [List.cons_append, List.dropWhile_cons_of_neg (by decide)]
    rintro c ⟨⟩
    rfl

end IsGap

end HeaderOutline
