import HeaderOutline.Json.Writer
import HeaderOutline.Proofs.Json.Reader
/-!
# Writing JSON

In both layouts, the text written for a value stands for it. On one line, it has no line feed.
-/

namespace HeaderOutline

theorem Text.join_cons_cons (separator part next : Text) (parts : List Text) :
    join separator (part :: next :: parts) = part ++ separator ++ join separator (next :: parts) := rfl

theorem Text.mem_join {c : Char} {separator : Text} {parts : List Text} (hc : c ∈ join separator parts) :
    c ∈ separator ∨ ∃ part ∈ parts, c ∈ part := by
  induction parts with
  | nil => cases hc
  | cons part parts ih =>
    cases parts with
    | nil => exact .inr ⟨part, List.mem_cons_self, hc⟩
    | cons next parts =>
      rw [join_cons_cons, List.mem_append, List.mem_append] at hc
      rcases hc with (hc | hc) | hc
      · exact .inr ⟨part, List.mem_cons_self, hc⟩
      · exact .inl hc
      · exact (ih hc).imp id fun ⟨other, hother, hc⟩ => ⟨other, List.mem_cons_of_mem part hother, hc⟩

namespace Json

open HeaderOutline.Parser (isSpace)

/-! ### Strings -/

theorem spellsUnit_control {n : Nat} (hn : n < 0x20) :
    SpellsUnit n ['\\', 'u', '0', '0', hexDigit (n / 16), hexDigit (n % 16)] := by
  have hdigit : ∀ m < 16, Text.isHexDigit (hexDigit m) = true ∧ hexValue (hexDigit m) = m := by decide
  obtain ⟨hhigh, hhighValue⟩ := hdigit (n / 16) (by omega)
  obtain ⟨hlow, hlowValue⟩ := hdigit (n % 16) (by omega)
  have hvalue : unitValue '0' '0' (hexDigit (n / 16)) (hexDigit (n % 16)) = n := by
    rw [unitValue, hhighValue, hlowValue]
    change ((0 * 16 + 0) * 16 + n / 16) * 16 + n % 16 = n
    omega
  have hunit := SpellsUnit.digits (a := '0') (b := '0') (c := hexDigit (n / 16)) (d := hexDigit (n % 16))
    (by simp only [List.forall_mem_cons]; exact ⟨rfl, rfl, hhigh, hlow, nofun⟩)
  rwa [hvalue] at hunit

theorem spellsChar_escape (c : Char) : SpellsChar c (escape c) := by
  unfold escape
  split
  case h_8 hquote hbackslash _ _ _ _ _ =>
    split
    · next hcontrol =>
      have hhigh : isHighSurrogate c.toNat = false := by simp [isHighSurrogate]; omega
      have hlow : isLowSurrogate c.toNat = false := by simp [isLowSurrogate]; omega
      have hunit := SpellsChar.unit (spellsUnit_control hcontrol) hhigh hlow
      rwa [Char.ofNat_toNat] at hunit
    · next hcontrol =>
      refine .plain ?_
      simp only [isPlain, Bool.and_eq_true, decide_eq_true_eq, bne_iff_ne, ne_eq]
      exact ⟨⟨Nat.le_of_not_lt hcontrol, hquote⟩, hbackslash⟩
  all_goals exact .short rfl

theorem spells_flatMap_escape (text : Text) : Spells text (text.flatMap escape) := by
  induction text with
  | nil => exact .nil
  | cons c text ih => exact .cons (spellsChar_escape c) ih

theorem isQuoted_quote (text : Text) : IsQuoted text (quote text) := ⟨_, rfl, spells_flatMap_escape text⟩

theorem escape_noLineFeed (c : Char) : '\n' ∉ escape c := by
  have hdigit : ∀ m < 16, '\n' ≠ hexDigit m := by decide
  unfold escape
  split
  case h_8 _ _ _ _ hlineFeed _ _ =>
    split
    · next hcontrol => simp [hdigit (c.toNat / 16) (by omega), hdigit (c.toNat % 16) (by omega)]
    · simpa using Ne.symm hlineFeed
  all_goals decide

theorem quote_noLineFeed (text : Text) : '\n' ∉ quote text := by
  simp [quote, escape_noLineFeed]

/-! ### Numbers -/

theorem head?_toDigits {n : Nat} (hn : n ≠ 0) : (Nat.toDigits 10 n).head? ≠ some '0' := by
  induction n using Nat.strongRecOn with
  | ind n ih =>
    by_cases hlt : n < 10
    · rw [Nat.toDigits_of_lt_base hlt]
      have hdigit : ∀ m < 10, m ≠ 0 → [Nat.digitChar m].head? ≠ some '0' := by decide
      exact hdigit n hlt hn
    · obtain ⟨c, digits, hdigits⟩ := List.exists_cons_of_ne_nil (Nat.toDigits_ne_nil (b := 10) (n := n / 10))
      have hhead := ih (n / 10) (by omega) (by omega)
      rw [Nat.toDigits_of_base_le (by decide) (by omega), hdigits]
      rwa [hdigits] at hhead

theorem isNatural_ofNat (n : Nat) : IsNatural n (Text.ofNat n) where
  nonempty := Nat.toDigits_ne_nil
  isDigit _ hc := Nat.isDigit_of_mem_toDigits (by decide) (by decide) hc
  noLeadingZero hhead := by
    by_cases hn : n = 0
    · subst hn
      rfl
    · exact absurd hhead (head?_toDigits hn)
  value := Nat.ofDigitChars_ten_toDigits

theorem isInteger_ofInt (n : Int) : IsInteger n (Text.ofInt n) := by
  cases n with
  | ofNat n => exact .natural (isNatural_ofNat n)
  | negSucc n => exact .negative (isNatural_ofNat (n + 1))

theorem IsNatural.noLineFeed {n : Nat} {digits : Text} (hdigits : IsNatural n digits) : '\n' ∉ digits :=
  fun hmem => absurd (hdigits.isDigit _ hmem) (by decide)

theorem IsInteger.noLineFeed {n : Int} {text : Text} (htext : IsInteger n text) : '\n' ∉ text := by
  cases htext with
  | natural hdigits => exact hdigits.noLineFeed
  | negative hdigits => exact List.not_mem_cons_of_ne_of_not_mem (by decide) hdigits.noLineFeed

/-! ### Lists -/

theorem Padded.of {property : Text → Prop} {text : Text} (htext : property text) : Padded property text :=
  ⟨[], text, [], by simp, htext, nofun, nofun⟩

theorem Padded.behind {property : Text → Prop} {text spaces : Text} (htext : property text)
    (hspaces : ∀ c ∈ spaces, isSpace c = true) : Padded property (spaces ++ text) :=
  ⟨spaces, text, [], by simp, htext, hspaces, nofun⟩

theorem separated_join {α : Type} {property : α → Text → Prop} {text : α → Text} {a : α} {as : List α}
    (htext : ∀ b ∈ a :: as, property b (text b)) :
    Separated property (a :: as) (Text.join [','] ((a :: as).map text)) := by
  induction as generalizing a with
  | nil => exact htext a List.mem_cons_self
  | cons b as ih =>
    refine ⟨text a, _, ?_, htext a List.mem_cons_self, ih fun c hc => htext c (List.mem_cons_of_mem a hc)⟩
    rw [List.map_cons, List.map_cons, Text.join_cons_cons, List.append_assoc]
    rfl

theorem eq_join {α : Type} {write : List α → Text} {text : α → Text} (hnil : write [] = [])
    (hone : ∀ a, write [a] = text a) (hmore : ∀ a b as, write (a :: b :: as) = text a ++ ',' :: write (b :: as))
    (as : List α) : write as = Text.join [','] (as.map text) := by
  induction as with
  | nil => exact hnil
  | cons a as ih =>
    cases as with
    | nil => exact hone a
    | cons b as =>
      rw [hmore, ih, List.map_cons, List.map_cons, List.map_cons, Text.join_cons_cons, List.append_assoc]
      rfl

/-! ### On one line -/

def compactField (field : Text × Json) : Text := quote field.1 ++ ':' :: compact field.2

theorem compactItems_eq (items : List Json) : compactItems items = Text.join [','] (items.map compact) :=
  eq_join rfl (fun _ => rfl) (fun _ _ _ => rfl) items

theorem compactFields_eq (fields : List (Text × Json)) : compactFields fields = Text.join [','] (fields.map compactField) :=
  eq_join rfl (fun _ => rfl) (fun (key, value) next fields => by simp [compactFields]) fields

theorem denotes_compact (value : Json) : Denotes value (compact value) := by
  induction value using inductionOn with
  | null => rfl
  | bool value => cases value <;> rfl
  | int value => exact isInteger_ofInt value
  | string text => exact isQuoted_quote text
  | array items ih =>
    refine ⟨_, rfl, denotesItems_iff.2 ?_⟩
    cases items with
    | nil => exact .inl ⟨rfl, nofun⟩
    | cons item items =>
      rw [compactItems_eq]
      exact .inr (separated_join fun item hitem => .of (ih item hitem))
  | object fields ih =>
    refine ⟨_, rfl, denotesFields_iff.2 ?_⟩
    cases fields with
    | nil => exact .inl ⟨rfl, nofun⟩
    | cons field fields =>
      rw [compactFields_eq]
      exact .inr (separated_join fun field hfield => denotesField_iff.2
        ⟨quote field.1, compact field.2, rfl, .of (isQuoted_quote field.1), .of (ih field hfield)⟩)

theorem compact_noLineFeed (value : Json) : '\n' ∉ compact value := by
  induction value using inductionOn with
  | null => decide
  | bool value => cases value <;> decide
  | int value => exact (isInteger_ofInt value).noLineFeed
  | string text => exact quote_noLineFeed text
  | array items ih =>
    have hitems : '\n' ∉ compactItems items := by
      rw [compactItems_eq]
      intro hmem
      rcases Text.mem_join hmem with hcomma | ⟨_, hpart, hmem⟩
      · exact absurd hcomma (by decide)
      · obtain ⟨item, hitem, rfl⟩ := List.mem_map.1 hpart
        exact ih item hitem hmem
    simpa [compact] using hitems
  | object fields ih =>
    have hfields : '\n' ∉ compactFields fields := by
      rw [compactFields_eq]
      intro hmem
      rcases Text.mem_join hmem with hcomma | ⟨_, hpart, hmem⟩
      · exact absurd hcomma (by decide)
      · obtain ⟨field, hfield, rfl⟩ := List.mem_map.1 hpart
        have hkey := quote_noLineFeed field.1
        have hvalue := ih field hfield
        simp [compactField, hkey, hvalue] at hmem
    simpa [compact] using hfields

/-! ### Over several lines -/

theorem newLine_spaces (level : Nat) : ∀ c ∈ newLine level, isSpace c = true := by
  rintro c (_ | ⟨_, hc⟩)
  · rfl
  · rw [(List.mem_replicate.1 hc).2]
    rfl

def prettyItem (level : Nat) (item : Json) : Text := newLine level ++ pretty level item

def prettyField (level : Nat) (field : Text × Json) : Text :=
  newLine level ++ quote field.1 ++ ':' :: ([' '] ++ pretty level field.2)

theorem prettyItems_eq (level : Nat) (items : List Json) :
    prettyItems level items = Text.join [','] (items.map (prettyItem level)) :=
  eq_join rfl (fun _ => rfl) (fun _ _ _ => rfl) items

theorem prettyFields_eq (level : Nat) (fields : List (Text × Json)) :
    prettyFields level fields = Text.join [','] (fields.map (prettyField level)) :=
  eq_join rfl (fun _ => by simp [prettyFields, prettyField]) (fun _ _ _ => by simp [prettyFields, prettyField]) fields

theorem denotes_pretty (value : Json) (level : Nat) : Denotes value (pretty level value) := by
  induction value using inductionOn generalizing level with
  | null => rfl
  | bool value => cases value <;> rfl
  | int value => exact isInteger_ofInt value
  | string text => exact isQuoted_quote text
  | array items ih =>
    cases items with
    | nil => exact ⟨[], rfl, nofun⟩
    | cons item items =>
      refine ⟨prettyItems (level + 1) (item :: items) ++ newLine level, rfl, denotesItems_iff.2 (.inr ?_)⟩
      rw [prettyItems_eq]
      refine (separated_join fun item hitem => ?_).append_spaces fun hitem => hitem.append_spaces (newLine_spaces level)
      exact .behind (ih item hitem (level + 1)) (newLine_spaces (level + 1))
  | object fields ih =>
    cases fields with
    | nil => exact ⟨[], rfl, nofun⟩
    | cons field fields =>
      refine ⟨prettyFields (level + 1) (field :: fields) ++ newLine level, rfl, denotesFields_iff.2 (.inr ?_)⟩
      rw [prettyFields_eq]
      refine (separated_join fun field hfield => ?_).append_spaces (DenotesField.append_spaces (newLine_spaces level))
      exact denotesField_iff.2 ⟨_, _, rfl, .behind (isQuoted_quote field.1) (newLine_spaces (level + 1)),
        .behind (ih field hfield (level + 1)) (List.forall_mem_singleton.2 rfl)⟩

/-! ### Whole files -/

/-- A written file is a text of the value, followed by one line feed. -/
theorem write_eq (layout : Layout) (value : Json) : ∃ body, write layout value = body ++ ['\n'] ∧ Denotes value body := by
  cases layout with
  | compact => exact ⟨_, rfl, denotes_compact value⟩
  | pretty => exact ⟨_, rfl, denotes_pretty value 0⟩

/-- What is written is read back. -/
theorem read_write (layout : Layout) {value : Json} (hkeys : DistinctKeys value) : read (write layout value) = some value := by
  obtain ⟨body, hbody, hdenotes⟩ := write_eq layout value
  rw [hbody]
  exact read_eq_some_iff.2 ⟨(Padded.of hdenotes).append_spaces (List.forall_mem_singleton.2 rfl), hkeys⟩

end Json

end HeaderOutline
