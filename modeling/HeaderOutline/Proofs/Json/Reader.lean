import HeaderOutline.Proofs.Json.Lexeme
/-!
# Reading JSON

The reader reads a text if and only if the format gives it a value in which no object has a key twice, and it
reads that value.
-/

namespace HeaderOutline

open HeaderOutline.Parser

namespace Json

/-! ### The format -/

section Padded

variable {property : Text → Prop}

theorem Padded.append_spaces {text spaces : Text} (htext : Padded property text)
    (hspaces : ∀ c ∈ spaces, isSpace c = true) : Padded property (text ++ spaces) := by
  obtain ⟨before, inner, behind, rfl, hinner, hbefore, hbehind⟩ := htext
  refine ⟨before, inner, behind ++ spaces, by simp only [List.append_assoc], hinner, hbefore, fun c hc => ?_⟩
  exact (List.mem_append.1 hc).elim (hbehind c) (hspaces c)

theorem padded_and {condition : Prop} {text : Text}
    (htext : Padded (fun inner => property inner ∧ condition) text) : Padded property text ∧ condition := by
  obtain ⟨before, inner, behind, rfl, ⟨hinner, hcondition⟩, hbefore, hbehind⟩ := htext
  exact ⟨⟨before, inner, behind, rfl, hinner, hbefore, hbehind⟩, hcondition⟩

end Padded

/-- Texts with commas between neighbours, one for each item. -/
def Separated {α : Type} (property : α → Text → Prop) : List α → Text → Prop
  | [], _ => False
  | [a], text => property a text
  | a :: b :: as, text => ∃ first others, text = first ++ ',' :: others ∧ property a first ∧
    Separated property (b :: as) others

section Separated

variable {α : Type} {property : α → Text → Prop} {as : List α}

theorem Separated.append_spaces {text spaces : Text} (htext : Separated property as text)
    (hproperty : ∀ {a text}, property a text → property a (text ++ spaces)) : Separated property as (text ++ spaces) := by
  induction as generalizing text with
  | nil => exact htext
  | cons a as ih =>
    cases as with
    | nil => exact hproperty htext
    | cons b as =>
      obtain ⟨first, others, rfl, hfirst, hothers⟩ := htext
      exact ⟨first, others ++ spaces, by simp only [List.append_assoc, List.cons_append], hfirst, ih hothers⟩

theorem Separated.exists_text {text : Text} (htext : Separated property as text) : ∀ a ∈ as, ∃ text, property a text := by
  induction as generalizing text with
  | nil => nofun
  | cons a as ih =>
    cases as with
    | nil =>
      rintro b (_ | ⟨_, ⟨⟩⟩)
      exact ⟨text, htext⟩
    | cons b as =>
      obtain ⟨first, others, rfl, hfirst, hothers⟩ := htext
      rintro c (_ | ⟨_, hc⟩)
      · exact ⟨first, hfirst⟩
      · exact ih hothers c hc

theorem Separated.mono {property' : α → Text → Prop} {text : Text} (htext : Separated property as text)
    (himp : ∀ {a text}, property a text → property' a text) : Separated property' as text := by
  induction as generalizing text with
  | nil => exact htext
  | cons a as ih =>
    cases as with
    | nil => exact himp htext
    | cons b as =>
      obtain ⟨first, others, rfl, hfirst, hothers⟩ := htext
      exact ⟨first, others, rfl, himp hfirst, ih hothers⟩

end Separated

/-- Induction over the values inside a value. -/
@[elab_as_elim]
theorem inductionOn {motive : Json → Prop} (value : Json) (null : motive .null) (bool : ∀ value, motive (.bool value))
    (int : ∀ value, motive (.int value)) (string : ∀ text, motive (.string text))
    (array : ∀ items, (∀ item ∈ items, motive item) → motive (.array items))
    (object : ∀ fields, (∀ field ∈ fields, motive field.2) → motive (.object fields)) : motive value :=
  @Json.rec motive (fun items => ∀ item ∈ items, motive item) (fun fields => ∀ field ∈ fields, motive field.2)
    (fun field => motive field.2)
    null bool int string array object (fun _ h => (List.not_mem_nil h).elim)
    (fun _ _ hitem hitems => List.forall_mem_cons.2 ⟨hitem, hitems⟩) (fun _ h => (List.not_mem_nil h).elim)
    (fun _ _ hfield hfields => List.forall_mem_cons.2 ⟨hfield, hfields⟩) (fun _ _ hvalue => hvalue) value

theorem distinctKeysItems_iff {items : List Json} :
    DistinctKeysItems items ↔ ∀ item ∈ items, DistinctKeys item := by
  induction items with
  | nil => simp [DistinctKeysItems]
  | cons item items ih => simp [DistinctKeysItems, ih]

theorem distinctKeysFields_iff {fields : List (Text × Json)} :
    DistinctKeysFields fields ↔ ∀ field ∈ fields, DistinctKeys field.2 := by
  induction fields with
  | nil => simp [DistinctKeysFields]
  | cons field fields ih => simp [DistinctKeysFields, ih]

theorem denotesItems_iff {items : List Json} {text : Text} : DenotesItems items text ↔
    items = [] ∧ (∀ c ∈ text, isSpace c = true) ∨ Separated (fun item => Padded (Denotes item)) items text := by
  induction items generalizing text with
  | nil => simp [DenotesItems, Separated]
  | cons item items ih =>
    cases items with
    | nil => simp [DenotesItems, Separated]
    | cons next items => simp [DenotesItems, Separated, ih]

theorem denotesField_iff {field : Text × Json} {text : Text} : DenotesField field text ↔
    ∃ first second, text = first ++ ':' :: second ∧ Padded (IsQuoted field.1) first ∧ Padded (Denotes field.2) second := by
  cases field
  rfl

theorem DenotesField.append_spaces {field : Text × Json} {text spaces : Text} (hspaces : ∀ c ∈ spaces, isSpace c = true)
    (htext : DenotesField field text) : DenotesField field (text ++ spaces) := by
  obtain ⟨first, second, rfl, hfirst, hsecond⟩ := denotesField_iff.1 htext
  exact denotesField_iff.2 ⟨first, second ++ spaces, by simp, hfirst, hsecond.append_spaces hspaces⟩

theorem denotesFields_iff {fields : List (Text × Json)} {text : Text} : DenotesFields fields text ↔
    fields = [] ∧ (∀ c ∈ text, isSpace c = true) ∨ Separated DenotesField fields text := by
  induction fields generalizing text with
  | nil => simp [DenotesFields, Separated]
  | cons field fields ih =>
    cases fields with
    | nil => simp [DenotesFields, Separated]
    | cons next fields => simp [DenotesFields, Separated, ih]

/-- The first character tells the kind of a value. -/
theorem Denotes.head {value : Json} {text : Text} (htext : Denotes value text) :
    ∃ c tail, text = c :: tail ∧ isSpace c = false := by
  match value, htext with
  | .null, htext => exact ⟨'n', _, htext, rfl⟩
  | .bool true, htext => exact ⟨'t', _, htext, rfl⟩
  | .bool false, htext => exact ⟨'f', _, htext, rfl⟩
  | .int _, .natural hdigits =>
    obtain ⟨c, tail, rfl⟩ := List.exists_cons_of_ne_nil hdigits.nonempty
    refine ⟨c, tail, rfl, Bool.eq_false_iff.2 fun hspace => ?_⟩
    have hdigit := hdigits.isDigit c List.mem_cons_self
    simp only [isSpace, Bool.or_eq_true, beq_iff_eq] at hspace
    rcases hspace with ((rfl | rfl) | rfl) | rfl <;> exact absurd hdigit (by decide)
  | .int _, .negative hdigits => exact ⟨'-', _, rfl, rfl⟩
  | .string _, ⟨_, rfl, _⟩ => exact ⟨'"', _, rfl, rfl⟩
  | .array _, ⟨_, rfl, _⟩ => exact ⟨'[', _, rfl, rfl⟩
  | .object _, ⟨_, rfl, _⟩ => exact ⟨'\x7b', _, rfl, rfl⟩

namespace Reader

variable {input rest : Text}

/-! ### Lists -/

/-- No white space goes on here. -/
def EndsSpace (rest : Text) : Prop := ∀ c ∈ rest.head?, isSpace c = false

theorem takeWhile_spaces {spaces : Text} (hspaces : ∀ c ∈ spaces, isSpace c = true) (hrest : EndsSpace rest) :
    ∃ text, spaces0 (spaces ++ rest) = .ok text rest := by
  have hdrop : rest.dropWhile isSpace = rest := by
    cases rest with
    | nil => rfl
    | cons c rest => exact List.dropWhile_cons_of_neg (Bool.eq_false_iff.1 (hrest c rfl))
  refine ⟨(spaces ++ rest).takeWhile isSpace, ?_⟩
  rw [spaces0, Parser.takeWhile, List.dropWhile_append_of_pos hspaces, hdrop]

/-- What may stand behind a value and the white space behind it. -/
def EndsValue (rest : Text) : Prop := ∀ c ∈ rest.head?, isSpace c = false ∧ c.isDigit = false

theorem EndsValue.endsSpace (hrest : EndsValue rest) : EndsSpace rest := fun c hc => (hrest c hc).1

theorem EndsValue.endsNumber (hrest : EndsValue rest) {spaces : Text} (hspaces : ∀ c ∈ spaces, isSpace c = true) :
    EndsNumber (spaces ++ rest) := by
  intro c hc
  cases spaces with
  | nil => exact (hrest c hc).2
  | cons d spaces =>
    cases hc
    have hspace := hspaces c List.mem_cons_self
    simp only [isSpace, Bool.or_eq_true, beq_iff_eq] at hspace
    rcases hspace with ((rfl | rfl) | rfl) | rfl <;> rfl

section Padded

variable {α : Type} {p : Parser α} {a : α} {property : Text → Prop}

/-- A parser reads an item between white space, if it reads the item without it. -/
theorem padded_append {text : Text} (htext : Padded property text) (hrest : EndsValue rest)
    (hstart : ∀ inner, property inner → ∃ c tail, inner = c :: tail ∧ isSpace c = false)
    (hp : ∀ inner tail, property inner → EndsNumber tail → (inner ++ tail).length ≤ (text ++ rest).length →
      p (inner ++ tail) = .ok a tail) : padded p (text ++ rest) = .ok a rest := by
  obtain ⟨before, inner, behind, rfl, hinner, hbefore, hbehind⟩ := htext
  have hread := hp inner (behind ++ rest) hinner (hrest.endsNumber hbehind)
    (by simp only [List.length_append]; omega)
  obtain ⟨c, tail, rfl, hc⟩ := hstart inner hinner
  have hspace : EndsSpace (c :: tail ++ (behind ++ rest)) := by
    rintro _ ⟨⟩
    exact hc
  obtain ⟨front, hfront⟩ := takeWhile_spaces hbefore hspace
  obtain ⟨back, hback⟩ := takeWhile_spaces hbehind hrest.endsSpace
  rw [List.append_assoc, List.append_assoc, padded, bind_of_ok hfront, bind_of_ok hread, bind_of_ok hback]
  rfl

theorem padded_of_ok (hp : ∀ {input rest}, p input = .ok a rest → ∃ text, property text ∧ input = text ++ rest)
    (hok : padded p input = .ok a rest) : ∃ text, Padded property text ∧ input = text ++ rest := by
  obtain ⟨_, mid, hfront, hok⟩ := bind_eq_ok.1 hok
  obtain ⟨_, last, hinner, hok⟩ := bind_eq_ok.1 hok
  obtain ⟨_, _, hback, hok⟩ := bind_eq_ok.1 hok
  cases hfront
  cases hback
  cases hok
  obtain ⟨inner, hproperty, hmid⟩ := hp hinner
  refine ⟨input.takeWhile isSpace ++ (inner ++ last.takeWhile isSpace),
    ⟨_, inner, _, rfl, hproperty, List.all_eq_true.1 List.all_takeWhile, List.all_eq_true.1 List.all_takeWhile⟩, ?_⟩
  rw [List.append_assoc, List.append_assoc, List.takeWhile_append_dropWhile, ← hmid, List.takeWhile_append_dropWhile]

end Padded

section Separated

variable {α : Type} {p : Parser α} {property : α → Text → Prop} {as : List α}

theorem separated_of_sepTail
    (hp : ∀ {input a rest}, p input = .ok a rest → ∃ text, property a text ∧ input = text ++ rest)
    (hok : sepTail (char ',') p input = .ok as rest) {a : α} {first : Text} (hfirst : property a first) :
    ∃ others, input = others ++ rest ∧ Separated property (a :: as) (first ++ others) := by
  fun_induction sepTail (char ',') p input generalizing as a first with
  | case1 input trace hseparator =>
    cases hok
    exact ⟨[], rfl, by rwa [List.append_nil]⟩
  | case2 => cases hok
  | case3 input c behind hseparator trace hmismatch =>
    cases hok
    exact ⟨[], rfl, by rwa [List.append_nil]⟩
  | case4 => cases hok
  | case5 input c behind hseparator b mid hb _ ih =>
    obtain ⟨tail, htail, rfl⟩ := Outcome.map_eq_ok.1 hok
    obtain ⟨rfl, rfl⟩ := char_eq_ok.1 hseparator
    obtain ⟨second, hsecond, rfl⟩ := hp hb
    obtain ⟨others, rfl, hothers⟩ := ih htail hsecond
    refine ⟨',' :: (second ++ others), by simp only [List.cons_append, List.append_assoc], ?_⟩
    exact ⟨first, second ++ others, rfl, hfirst, hothers⟩
  | case6 => cases hok

theorem separated_of_sepBy
    (hp : ∀ {input a rest}, p input = .ok a rest → ∃ text, property a text ∧ input = text ++ rest)
    (hok : sepBy (char ',') p input = .ok as rest) :
    as = [] ∧ rest = input ∨ ∃ text, Separated property as text ∧ input = text ++ rest := by
  unfold sepBy at hok
  split at hok
  · cases hok
    exact .inl ⟨rfl, rfl⟩
  · cases hok
  · next a mid ha =>
    obtain ⟨tail, htail, rfl⟩ := Outcome.map_eq_ok.1 hok
    obtain ⟨first, hfirst, rfl⟩ := hp ha
    obtain ⟨others, rfl, hothers⟩ := separated_of_sepTail hp htail hfirst
    exact .inr ⟨first ++ others, hothers, by rw [List.append_assoc]⟩

theorem endsValue_comma (tail : Text) : EndsValue (',' :: tail) := by
  rintro _ ⟨⟩
  exact ⟨rfl, rfl⟩

theorem sepTail_separated {n : Nat} {text : Text}
    (hp : ∀ a ∈ as, ∀ text tail, property a text → EndsValue tail → (text ++ tail).length < n →
      p (text ++ tail) = .ok a tail)
    (htext : Separated property as text) (hlength : (text ++ rest).length < n) (hrest : EndsValue rest)
    (hstop : rest.head? ≠ some ',') : sepTail (char ',') p (',' :: (text ++ rest)) = .ok as rest := by
  induction as generalizing text with
  | nil => exact htext.elim
  | cons a as ih =>
    have ha := hp a List.mem_cons_self
    cases as with
    | nil =>
      rw [sepTail_of_ok (char_cons ',' _) (ha text rest htext hrest hlength), sepTail_of_mismatch (char_of_ne hstop)]
      · rfl
      · simp only [List.length_cons, List.length_append]
        omega
    | cons b as =>
      obtain ⟨first, others, rfl, hfirst, hothers⟩ := htext
      have heq : first ++ ',' :: others ++ rest = first ++ ',' :: (others ++ rest) := by simp
      rw [heq] at hlength ⊢
      have htail := ih (fun c hc => hp c (List.mem_cons_of_mem a hc)) hothers
        (by simp only [List.length_append, List.length_cons] at hlength ⊢; omega)
      rw [sepTail_of_ok (char_cons ',' _) (ha first _ hfirst (endsValue_comma _) hlength), htail]
      · rfl
      · simp only [List.length_cons, List.length_append]
        omega

theorem sepBy_separated {n : Nat} {text : Text}
    (hp : ∀ a ∈ as, ∀ text tail, property a text → EndsValue tail → (text ++ tail).length < n →
      p (text ++ tail) = .ok a tail)
    (htext : Separated property as text) (hlength : (text ++ rest).length < n) (hrest : EndsValue rest)
    (hstop : rest.head? ≠ some ',') : sepBy (char ',') p (text ++ rest) = .ok as rest := by
  match as, htext with
  | [a], htext =>
    rw [sepBy_of_ok (hp a List.mem_cons_self text rest htext hrest hlength), sepTail_of_mismatch (char_of_ne hstop)]
    rfl
  | a :: b :: as, htext =>
    obtain ⟨first, others, rfl, hfirst, hothers⟩ := htext
    have heq : first ++ ',' :: others ++ rest = first ++ ',' :: (others ++ rest) := by simp
    rw [heq] at hlength ⊢
    have htail := sepTail_separated (fun c hc => hp c (List.mem_cons_of_mem a hc)) hothers
      (by simp only [List.length_append, List.length_cons] at hlength ⊢; omega) hrest hstop
    rw [sepBy_of_ok (hp a List.mem_cons_self first _ hfirst (endsValue_comma _) hlength), htail]
    rfl

end Separated

variable {K : Parser Json}

theorem integer_of_ne {c : Char} (hdigit : c.isDigit = false) (hminus : c ≠ '-') (tail : Text) :
    Mismatches integer (c :: tail) := by
  have hrun : Mismatches (takeWhile1 .digit Char.isDigit) (c :: tail) := ⟨_, if_neg (Bool.eq_false_iff.1 hdigit)⟩
  exact .bind_of_ok (opt_of_mismatch (char_of_ne (head?_cons_ne hminus tail))) (.bind (.map (.filter hrun)))

/-- A value that begins with no letter, digit or sign begins with a quote or a bracket. -/
theorem valueWith_of_mark {c : Char} (hletter : c ≠ 'n' ∧ c ≠ 't' ∧ c ≠ 'f') (hdigit : c.isDigit = false)
    (hminus : c ≠ '-') (tail : Text) : valueWith K (c :: tail) = firstOf
      [.string <$> string,
       .array <$> listed '[' ']' (padded K),
       .object <$> (listed '\x7b' '\x7d' (field K)).filter fun fields => decide (fields.map Prod.fst).Nodup]
      (c :: tail) := by
  have hnull : Mismatches (literal "null") (c :: tail) := literal_of_ne rfl (head?_cons_ne hletter.1 tail)
  have htrue : Mismatches (literal "true") (c :: tail) := literal_of_ne rfl (head?_cons_ne hletter.2.1 tail)
  have hfalse : Mismatches (literal "false") (c :: tail) := literal_of_ne rfl (head?_cons_ne hletter.2.2 tail)
  rw [valueWith, firstOf_of_mismatch hnull.map, firstOf_of_mismatch htrue.map, firstOf_of_mismatch hfalse.map,
    firstOf_of_mismatch (integer_of_ne hdigit hminus tail).map]

theorem listed_of_ne {α : Type} {opener c : Char} (hc : c ≠ opener) (closer : Char) (p : Parser α) (tail : Text) :
    Mismatches (listed opener closer p) (c :: tail) := .bind (char_of_ne (head?_cons_ne hc tail))

theorem valueWith_of_closer (tail : Text) : Mismatches (valueWith K) (']' :: tail) := by
  rw [Mismatches, valueWith_of_mark (by decide) rfl (by decide)]
  refine Mismatches.firstOf ?_
  simp only [List.forall_mem_cons]
  refine ⟨.map (.bind (char_of_ne (head?_cons_ne (by decide) tail))), ?_, ?_, List.forall_mem_nil _⟩
  · exact .map (listed_of_ne (by decide) ..)
  · exact .map (.filter (listed_of_ne (by decide) ..))

theorem listed_append {α : Type} {p : Parser α} {as : List α} {opener closer : Char} {body mid : Text}
    (hitems : sepBy (char ',') p (body ++ closer :: rest) = .ok as mid)
    (hend : ∃ text, spaces0 mid = .ok text (closer :: rest)) :
    listed opener closer p (opener :: (body ++ [closer]) ++ rest) = .ok as rest := by
  obtain ⟨text, hend⟩ := hend
  have heq : opener :: (body ++ [closer]) ++ rest = opener :: (body ++ closer :: rest) := by simp
  rw [heq, listed, bind_of_ok (char_cons opener _), bind_of_ok hitems, bind_of_ok hend, bind_of_ok (char_cons closer _)]
  rfl

/-! ### Values, kind by kind -/

theorem valueWith_word {word : String} {b : Bool} (hword : word = if b then "true" else "false") :
    valueWith K (word.toList ++ rest) = .ok (.bool b) rest := by
  subst hword
  cases b with
  | true =>
    have hnull : Mismatches (literal "null") ("true".toList ++ rest) := literal_of_ne rfl (head?_cons_ne (by decide) _)
    rw [if_pos rfl, valueWith, firstOf_of_mismatch hnull.map]
    exact firstOf_of_ok (map_of_ok (literal_append "true" rest))
  | false =>
    have hnull : Mismatches (literal "null") ("false".toList ++ rest) := literal_of_ne rfl (head?_cons_ne (by decide) _)
    have htrue : Mismatches (literal "true") ("false".toList ++ rest) := literal_of_ne rfl (head?_cons_ne (by decide) _)
    rw [if_neg Bool.false_ne_true, valueWith, firstOf_of_mismatch hnull.map, firstOf_of_mismatch htrue.map]
    exact firstOf_of_ok (map_of_ok (literal_append "false" rest))

theorem valueWith_integer {n : Int} {text : Text} (htext : IsInteger n text) (hrest : EndsNumber rest) :
    valueWith K (text ++ rest) = .ok (.int n) rest := by
  obtain ⟨c, tail, hhead, hletter⟩ : ∃ c tail, text ++ rest = c :: tail ∧ c ≠ 'n' ∧ c ≠ 't' ∧ c ≠ 'f' := by
    cases htext with
    | natural hdigits =>
      obtain ⟨c, tail, rfl⟩ := List.exists_cons_of_ne_nil hdigits.nonempty
      have hdigit := hdigits.isDigit c List.mem_cons_self
      have hne : ∀ letter : Char, letter.isDigit = false → c ≠ letter := by
        rintro _ hletter rfl
        rw [hletter] at hdigit
        cases hdigit
      exact ⟨c, tail ++ rest, rfl, hne 'n' rfl, hne 't' rfl, hne 'f' rfl⟩
    | negative hdigits => exact ⟨'-', _, rfl, by decide, by decide, by decide⟩
  have hword : ∀ (word : String) {d : Char} {more : Text}, word.toList = d :: more → c ≠ d →
      Mismatches (literal word) (text ++ rest) := fun _ _ _ hword hne => by
    rw [hhead]
    exact literal_of_ne hword (head?_cons_ne hne tail)
  rw [valueWith, firstOf_of_mismatch (hword "null" rfl hletter.1).map,
    firstOf_of_mismatch (hword "true" rfl hletter.2.1).map,
    firstOf_of_mismatch (hword "false" rfl hletter.2.2).map]
  exact firstOf_of_ok (map_of_ok (integer_append htext hrest))

theorem valueWith_string {value text : Text} (htext : IsQuoted value text) :
    valueWith K (text ++ rest) = .ok (.string value) rest := by
  have hread : string (text ++ rest) = .ok value rest := string_eq_ok.2 ⟨text, htext, rfl⟩
  obtain ⟨body, rfl, -⟩ := htext
  rw [List.cons_append, valueWith_of_mark (by decide) rfl (by decide)]
  exact firstOf_of_ok (map_of_ok hread)

theorem valueWith_array {items : List Json} {tail : Text}
    (hitems : listed '[' ']' (padded K) ('[' :: tail) = .ok items rest) :
    valueWith K ('[' :: tail) = .ok (.array items) rest := by
  have hstring : Mismatches string ('[' :: tail) := .bind (char_of_ne (head?_cons_ne (by decide) tail))
  rw [valueWith_of_mark (by decide) rfl (by decide), firstOf_of_mismatch hstring.map]
  exact firstOf_of_ok (map_of_ok hitems)

theorem valueWith_object {fields : List (Text × Json)} {tail : Text}
    (hfields : listed '\x7b' '\x7d' (field K) ('\x7b' :: tail) = .ok fields rest)
    (hkeys : (fields.map Prod.fst).Nodup) : valueWith K ('\x7b' :: tail) = .ok (.object fields) rest := by
  have hstring : Mismatches string ('\x7b' :: tail) := .bind (char_of_ne (head?_cons_ne (by decide) tail))
  have harray : Mismatches (listed '[' ']' (padded K)) ('\x7b' :: tail) := listed_of_ne (by decide) ..
  rw [valueWith_of_mark (by decide) rfl (by decide), firstOf_of_mismatch hstring.map, firstOf_of_mismatch harray.map]
  exact firstOf_of_ok (map_of_ok (filter_of_ok hfields (decide_eq_true hkeys)))

/-! ### Values inside values -/

/-- The parser that stands for the values inside a text of length `n`. -/
def below (n : Nat) : Parser Json := fun rest => if rest.length < n then value rest else .mismatch []

theorem value_apply (input : Text) : value input = valueWith (below input.length) input := recurse_apply valueWith input

/-- A closing bracket ends a list, behind its last item or behind nothing but white space. -/
theorem endsValue_closer {c : Char} (hspace : isSpace c = false) (hdigit : c.isDigit = false) (tail : Text) :
    EndsValue (c :: tail) := by
  rintro _ ⟨⟩
  exact ⟨hspace, hdigit⟩

theorem spaces0_of_endsValue (hrest : EndsValue rest) : ∃ text, spaces0 rest = .ok text rest :=
  takeWhile_spaces (by nofun : ∀ c ∈ ([] : Text), isSpace c = true) hrest.endsSpace

theorem padded_below_append {n : Nat} {item : Json} {text : Text} (htext : Padded (Denotes item) text)
    (hvalue : ∀ {inner tail}, Denotes item inner → EndsNumber tail → value (inner ++ tail) = .ok item tail)
    (hrest : EndsValue rest) (hlength : (text ++ rest).length < n) :
    padded (below n) (text ++ rest) = .ok item rest := by
  refine padded_append htext hrest (fun _ => Denotes.head) fun inner tail hinner htail hle => ?_
  rw [below, if_pos (Nat.lt_of_le_of_lt hle hlength), hvalue hinner htail]

theorem string_append {key text : Text} (htext : Padded (IsQuoted key) text) (hrest : EndsValue rest) :
    padded string (text ++ rest) = .ok key rest := by
  refine padded_append htext hrest ?_ fun inner tail hinner _ _ => string_eq_ok.2 ⟨inner, hinner, rfl⟩
  rintro _ ⟨_, rfl, -⟩
  exact ⟨'"', _, rfl, rfl⟩

theorem field_below_append {n : Nat} {field : Text × Json} {text : Text} (htext : DenotesField field text)
    (hvalue : ∀ {inner tail}, Denotes field.2 inner → EndsNumber tail → value (inner ++ tail) = .ok field.2 tail)
    (hrest : EndsValue rest) (hlength : (text ++ rest).length < n) :
    Reader.field (below n) (text ++ rest) = .ok field rest := by
  obtain ⟨key, value⟩ := field
  obtain ⟨first, second, rfl, hfirst, hsecond⟩ := htext
  have heq : first ++ ':' :: second ++ rest = first ++ ':' :: (second ++ rest) := by simp
  have hsecond := padded_below_append hsecond hvalue hrest (n := n)
    (by simp only [List.length_append, List.length_cons] at hlength ⊢; omega)
  rw [heq, Reader.field, bind_of_ok (string_append hfirst (endsValue_closer rfl rfl _)), bind_of_ok (char_cons ':' _),
    bind_of_ok hsecond]
  rfl

/-- What a list of values reads, and the text that is left for its closing bracket. -/
theorem items_append {n : Nat} {items : List Json} {body : Text} (hbody : DenotesItems items body)
    (hvalue : ∀ item ∈ items, ∀ {text tail}, Denotes item text → EndsNumber tail → value (text ++ tail) = .ok item tail)
    (hlength : (body ++ ']' :: rest).length < n) :
    ∃ mid, sepBy (char ',') (padded (below n)) (body ++ ']' :: rest) = .ok items mid ∧
      ∃ text, spaces0 mid = .ok text (']' :: rest) := by
  have hcloser := endsValue_closer (c := ']') rfl rfl rest
  rcases denotesItems_iff.1 hbody with ⟨rfl, hspaces⟩ | hbody
  · obtain ⟨text, hend⟩ := takeWhile_spaces hspaces hcloser.endsSpace
    have hnone : Mismatches (below n) (']' :: rest) := by
      rw [Mismatches, below, if_pos (by simp only [List.length_append] at hlength; omega), value_apply]
      exact valueWith_of_closer rest
    exact ⟨_, sepBy_of_mismatch (.bind_of_ok hend hnone.bind), text, hend⟩
  · refine ⟨_, sepBy_separated (n := n) ?_ hbody hlength hcloser (head?_cons_ne (by decide) rest),
      spaces0_of_endsValue hcloser⟩
    exact fun item hitem text tail htext htail hlt => padded_below_append htext (hvalue item hitem) htail hlt

theorem fields_append {n : Nat} {fields : List (Text × Json)} {body : Text} (hbody : DenotesFields fields body)
    (hvalue : ∀ field ∈ fields, ∀ {text tail}, Denotes field.2 text → EndsNumber tail →
      value (text ++ tail) = .ok field.2 tail)
    (hlength : (body ++ '\x7d' :: rest).length < n) :
    ∃ mid, sepBy (char ',') (field (below n)) (body ++ '\x7d' :: rest) = .ok fields mid ∧
      ∃ text, spaces0 mid = .ok text ('\x7d' :: rest) := by
  have hcloser := endsValue_closer (c := '\x7d') rfl rfl rest
  rcases denotesFields_iff.1 hbody with ⟨rfl, hspaces⟩ | hbody
  · obtain ⟨text, hend⟩ := takeWhile_spaces hspaces hcloser.endsSpace
    have hnone : Mismatches string ('\x7d' :: rest) := .bind (char_of_ne (head?_cons_ne (by decide) rest))
    exact ⟨_, sepBy_of_mismatch (.bind (.bind_of_ok hend hnone.bind)), text, hend⟩
  · refine ⟨_, sepBy_separated (n := n) ?_ hbody hlength hcloser (head?_cons_ne (by decide) rest),
      spaces0_of_endsValue hcloser⟩
    exact fun field hfield text tail htext htail hlt => field_below_append htext (hvalue field hfield) htail hlt

/-- The reader reads every text that stands for a value. -/
theorem value_append (v : Json) {text rest : Text} (htext : Denotes v text) (hkeys : DistinctKeys v)
    (hrest : EndsNumber rest) : value (text ++ rest) = .ok v rest := by
  induction v using inductionOn generalizing text rest with
  | null =>
    subst htext
    rw [value_apply]
    exact firstOf_of_ok (map_of_ok (literal_append "null" rest))
  | bool b =>
    rw [value_apply]
    cases b with
    | true =>
      subst htext
      exact valueWith_word rfl
    | false =>
      subst htext
      exact valueWith_word rfl
  | int n =>
    rw [value_apply]
    exact valueWith_integer htext hrest
  | string s =>
    rw [value_apply]
    exact valueWith_string htext
  | array items ih =>
    obtain ⟨body, rfl, hbody⟩ := htext
    have hvalue : ∀ item ∈ items, ∀ {text tail}, Denotes item text → EndsNumber tail → value (text ++ tail) = .ok item tail :=
      fun item hitem _ _ hitemText => ih item hitem hitemText (distinctKeysItems_iff.1 hkeys item hitem)
    have hlength : (body ++ ']' :: rest).length < ('[' :: (body ++ [']']) ++ rest).length := by simp
    obtain ⟨mid, hitems, hend⟩ := items_append hbody hvalue hlength
    rw [value_apply]
    exact valueWith_array (listed_append hitems hend)
  | object fields ih =>
    obtain ⟨body, rfl, hbody⟩ := htext
    have hvalue : ∀ field ∈ fields, ∀ {text tail}, Denotes field.2 text → EndsNumber tail →
        value (text ++ tail) = .ok field.2 tail :=
      fun field hfield _ _ hfieldText => ih field hfield hfieldText (distinctKeysFields_iff.1 hkeys.2 field hfield)
    have hlength : (body ++ '\x7d' :: rest).length < ('\x7b' :: (body ++ ['\x7d']) ++ rest).length := by simp
    obtain ⟨mid, hfields, hend⟩ := fields_append hbody hvalue hlength
    rw [value_apply]
    exact valueWith_object (listed_append hfields hend) hkeys.1

/-! ### What is read -/

theorem below_of_ok {n : Nat} {v : Json} (hok : below n input = .ok v rest) : input.length < n ∧ value input = .ok v rest := by
  unfold below at hok
  split at hok
  · next hlt => exact ⟨hlt, hok⟩
  · cases hok

theorem spaces_of_spaces0 {text : Text} (hok : spaces0 input = .ok text rest) :
    (∀ c ∈ text, isSpace c = true) ∧ input = text ++ rest := by
  cases hok
  exact ⟨List.all_eq_true.1 List.all_takeWhile, List.takeWhile_append_dropWhile.symm⟩

theorem listed_of_ok {α : Type} {p : Parser α} {property : α → Text → Prop} {as : List α} {opener closer : Char}
    (hp : ∀ {input a rest}, p input = .ok a rest → ∃ text, property a text ∧ input = text ++ rest)
    (hspaces : ∀ {a text spaces}, (∀ c ∈ spaces, isSpace c = true) → property a text → property a (text ++ spaces))
    (hok : listed opener closer p input = .ok as rest) :
    ∃ body, input = opener :: (body ++ [closer]) ++ rest ∧
      (as = [] ∧ (∀ c ∈ body, isSpace c = true) ∨ Separated property as body) := by
  obtain ⟨_, _, hopener, hok⟩ := bind_eq_ok.1 hok
  obtain ⟨items, mid, hitems, hok⟩ := bind_eq_ok.1 hok
  obtain ⟨space, last, hspace, hok⟩ := bind_eq_ok.1 hok
  obtain ⟨_, _, hcloser, hok⟩ := bind_eq_ok.1 hok
  cases hok
  obtain ⟨rfl, rfl⟩ := char_eq_ok.1 hopener
  obtain ⟨rfl, rfl⟩ := char_eq_ok.1 hcloser
  obtain ⟨hblank, rfl⟩ := spaces_of_spaces0 hspace
  rcases separated_of_sepBy hp hitems with ⟨rfl, rfl⟩ | ⟨text, htext, rfl⟩
  · exact ⟨space, by simp, .inl ⟨rfl, hblank⟩⟩
  · exact ⟨text ++ space, by simp, .inr (htext.append_spaces (hspaces hblank))⟩

section Inner

-- What holds of the parser for the values inside a value.
variable (hK : ∀ {input v rest}, K input = .ok v rest → ∃ text, (Denotes v text ∧ DistinctKeys v) ∧ input = text ++ rest)

include hK

theorem item_of_ok {item : Json} (hok : padded K input = .ok item rest) :
    ∃ text, (Padded (Denotes item) text ∧ DistinctKeys item) ∧ input = text ++ rest := by
  obtain ⟨text, htext, rfl⟩ := padded_of_ok hK hok
  exact ⟨text, padded_and htext, rfl⟩

theorem field_of_ok {field : Text × Json} (hok : Reader.field K input = .ok field rest) :
    ∃ text, (DenotesField field text ∧ DistinctKeys field.2) ∧ input = text ++ rest := by
  obtain ⟨key, _, hkey, hok⟩ := bind_eq_ok.1 hok
  obtain ⟨_, _, hcolon, hok⟩ := bind_eq_ok.1 hok
  obtain ⟨v, _, hv, hok⟩ := bind_eq_ok.1 hok
  cases hok
  obtain ⟨rfl, rfl⟩ := char_eq_ok.1 hcolon
  obtain ⟨first, hfirst, rfl⟩ := padded_of_ok string_eq_ok.1 hkey
  obtain ⟨second, ⟨hsecond, hkeys⟩, rfl⟩ := item_of_ok hK hv
  exact ⟨first ++ ':' :: second, ⟨⟨first, second, rfl, hfirst, hsecond⟩, hkeys⟩, by simp⟩

theorem array_of_ok {items : List Json} (hok : listed '[' ']' (padded K) input = .ok items rest) :
    ∃ text, (Denotes (.array items) text ∧ DistinctKeys (.array items)) ∧ input = text ++ rest := by
  obtain ⟨body, rfl, hbody⟩ := listed_of_ok (item_of_ok hK)
    (fun hspaces hitem => ⟨hitem.1.append_spaces hspaces, hitem.2⟩) hok
  refine ⟨_, ⟨⟨body, rfl, denotesItems_iff.2 (hbody.imp id fun h => h.mono And.left)⟩, ?_⟩, rfl⟩
  refine distinctKeysItems_iff.2 fun item hitem => ?_
  rcases hbody with ⟨rfl, -⟩ | hbody
  · cases hitem
  · obtain ⟨_, -, hkeys⟩ := hbody.exists_text item hitem
    exact hkeys

theorem object_of_ok {fields : List (Text × Json)} (hok : listed '\x7b' '\x7d' (field K) input = .ok fields rest)
    (hnodup : (fields.map Prod.fst).Nodup) :
    ∃ text, (Denotes (.object fields) text ∧ DistinctKeys (.object fields)) ∧ input = text ++ rest := by
  obtain ⟨body, rfl, hbody⟩ := listed_of_ok (field_of_ok hK)
    (fun hspaces hfield => ⟨hfield.1.append_spaces hspaces, hfield.2⟩) hok
  refine ⟨_, ⟨⟨body, rfl, denotesFields_iff.2 (hbody.imp id fun h => h.mono And.left)⟩, hnodup, ?_⟩, rfl⟩
  refine distinctKeysFields_iff.2 fun field hfield => ?_
  rcases hbody with ⟨rfl, -⟩ | hbody
  · cases hfield
  · obtain ⟨_, -, hkeys⟩ := hbody.exists_text field hfield
    exact hkeys

theorem valueWith_of_ok {v : Json} (hok : valueWith K input = .ok v rest) :
    ∃ text, (Denotes v text ∧ DistinctKeys v) ∧ input = text ++ rest := by
  obtain ⟨p, hp, hok⟩ := firstOf_eq_ok hok
  simp only [List.mem_cons, List.not_mem_nil, or_false] at hp
  rcases hp with rfl | rfl | rfl | rfl | rfl | rfl | rfl
  · obtain ⟨_, hword, rfl⟩ := map_eq_ok.1 hok
    exact ⟨_, ⟨rfl, trivial⟩, (literal_eq_ok.1 hword).2⟩
  · obtain ⟨_, hword, rfl⟩ := map_eq_ok.1 hok
    exact ⟨_, ⟨rfl, trivial⟩, (literal_eq_ok.1 hword).2⟩
  · obtain ⟨_, hword, rfl⟩ := map_eq_ok.1 hok
    exact ⟨_, ⟨rfl, trivial⟩, (literal_eq_ok.1 hword).2⟩
  · obtain ⟨n, hn, rfl⟩ := map_eq_ok.1 hok
    obtain ⟨text, htext, rfl⟩ := isInteger_of_integer hn
    exact ⟨text, ⟨htext, trivial⟩, rfl⟩
  · obtain ⟨value, hvalue, rfl⟩ := map_eq_ok.1 hok
    obtain ⟨text, htext, rfl⟩ := string_eq_ok.1 hvalue
    exact ⟨text, ⟨htext, trivial⟩, rfl⟩
  · obtain ⟨items, hitems, rfl⟩ := map_eq_ok.1 hok
    exact array_of_ok hK hitems
  · obtain ⟨fields, hfields, rfl⟩ := map_eq_ok.1 hok
    obtain ⟨hfields, hnodup⟩ := filter_eq_ok.1 hfields
    exact object_of_ok hK hfields (of_decide_eq_true hnodup)

end Inner

/-- What the reader reads stands for its value. -/
theorem value_of_ok {v : Json} (hok : value input = .ok v rest) :
    ∃ text, (Denotes v text ∧ DistinctKeys v) ∧ input = text ++ rest := by
  induction hlength : input.length using Nat.strongRecOn generalizing input v rest with
  | ind n ih =>
    rw [value_apply] at hok
    refine valueWith_of_ok (fun hbelow => ?_) hok
    obtain ⟨hlt, hinner⟩ := below_of_ok hbelow
    exact ih _ (hlength ▸ hlt) hinner rfl

end Reader

/-- The reader takes exactly the texts that the format gives a value in which no object has a key twice. -/
theorem read_eq_some_iff {v : Json} {text : Text} :
    read text = some v ↔ Padded (Denotes v) text ∧ DistinctKeys v := by
  constructor
  · intro hread
    unfold read at hread
    split at hread
    · next _ hok =>
      cases hread
      obtain ⟨whole, ⟨hwhole, hkeys⟩, rfl⟩ := Reader.item_of_ok Reader.value_of_ok hok
      rw [List.append_nil]
      exact ⟨hwhole, hkeys⟩
    · cases hread
  · rintro ⟨htext, hkeys⟩
    have hok : Reader.padded Reader.value (text ++ []) = .ok v [] :=
      Reader.padded_append htext (fun _ hc => by cases hc) (fun _ => Denotes.head)
        fun inner tail hinner htail _ => Reader.value_append v hinner hkeys htail
    rw [List.append_nil] at hok
    rw [read, hok]

end Json

end HeaderOutline
