import HeaderOutline.Parser.Primitive
import HeaderOutline.Parser.Repeat
import HeaderOutline.Proofs.Parser.Outcome
/-!
# Reading a known text

A proof that a text is read back goes through it from the front. Each combinator has one equation for the
case that its part reads something, and one for the case that its part does not match. `Mismatches` says the
latter without the trace, which nobody looks at who tries another reading.
-/

namespace HeaderOutline.Parser

variable {α β : Type}

/-- The parser does not match here, so that another reading is tried. -/
def Mismatches (p : Parser α) (input : Text) : Prop := ∃ trace, p input = .mismatch trace

variable {p : Parser α} {input mid rest : Text} {a : α}

/-! ### Sequences -/

theorem bind_of_ok {f : α → Parser β} (hp : p input = .ok a mid) : (p >>= f) input = f a mid := by
  rw [bind_apply, hp]
  rfl

theorem map_of_ok {f : α → β} (hp : p input = .ok a mid) : (f <$> p) input = .ok (f a) mid := by
  rw [map_apply, hp]
  rfl

theorem textOf_of_ok {text : Text} (hp : p (text ++ rest) = .ok a rest) : textOf p (text ++ rest) = .ok text rest := by
  unfold textOf
  rw [hp]
  simp

theorem textOf_eq_ok (hp : p input = .ok a rest) : ∃ text, textOf p input = .ok text rest :=
  ⟨_, by rw [textOf, hp]⟩

theorem exists_of_textOf {text : Text} (hp : textOf p input = .ok text rest) : ∃ a, p input = .ok a rest := by
  unfold textOf at hp
  split at hp
  · next a mid hread =>
    cases hp
    exact ⟨a, hread⟩
  · cases hp
  · cases hp

theorem filter_of_ok {property : α → Bool} (hp : p input = .ok a mid) (ha : property a = true) :
    p.filter property input = .ok a mid := by
  unfold filter
  rw [hp]
  exact if_pos ha

theorem lookahead_of_ok (hp : p input = .ok a mid) : lookahead p input = .ok a input := by
  unfold lookahead
  rw [hp]

theorem Mismatches.bind {f : α → Parser β} (hp : Mismatches p input) : Mismatches (p >>= f) input := by
  obtain ⟨trace, hp⟩ := hp
  exact ⟨trace, by rw [bind_apply, hp]; rfl⟩

theorem Mismatches.bind_of_ok {f : α → Parser β} (hp : p input = .ok a mid) (hf : Mismatches (f a) mid) :
    Mismatches (p >>= f) input := by
  obtain ⟨trace, hf⟩ := hf
  exact ⟨trace, by rw [Parser.bind_of_ok hp, hf]⟩

theorem Mismatches.map {f : α → β} (hp : Mismatches p input) : Mismatches (f <$> p) input := by
  obtain ⟨trace, hp⟩ := hp
  exact ⟨trace, by rw [map_apply, hp]; rfl⟩

theorem Mismatches.textOf (hp : Mismatches p input) : Mismatches (textOf p) input := by
  obtain ⟨trace, hp⟩ := hp
  exact ⟨trace, by rw [Parser.textOf, hp]⟩

theorem Mismatches.lookahead (hp : Mismatches p input) : Mismatches (lookahead p) input := by
  obtain ⟨trace, hp⟩ := hp
  exact ⟨trace, by rw [Parser.lookahead, hp]⟩

theorem Mismatches.filter {property : α → Bool} (hp : Mismatches p input) : Mismatches (p.filter property) input := by
  obtain ⟨trace, hp⟩ := hp
  exact ⟨trace, by rw [Parser.filter, hp]⟩

theorem Mismatches.filter_of_ok {property : α → Bool} (hp : p input = .ok a mid) (ha : property a = false) :
    Mismatches (p.filter property) input := by
  refine ⟨[⟨input, .rule .condition⟩], ?_⟩
  unfold Parser.filter
  rw [hp]
  exact if_neg (Bool.eq_false_iff.1 ha)

theorem Mismatches.filterMap {convert : α → Option β} (hp : Mismatches p input) :
    Mismatches (p.filterMap convert) input := by
  obtain ⟨trace, hp⟩ := hp
  exact ⟨trace, by rw [Parser.filterMap, hp]⟩

theorem Mismatches.filterMap_of_ok {convert : α → Option β} (hp : p input = .ok a mid) (ha : convert a = none) :
    Mismatches (p.filterMap convert) input := by
  refine ⟨[⟨input, .rule .conversion⟩], ?_⟩
  unfold Parser.filterMap
  rw [hp]
  dsimp only
  rw [ha]

/-! ### Choices -/

theorem opt_of_ok (hp : p input = .ok a mid) : opt p input = .ok (some a) mid := by
  unfold opt
  rw [hp]

theorem opt_of_mismatch (hp : Mismatches p input) : opt p input = .ok none input := by
  obtain ⟨trace, hp⟩ := hp
  unfold opt
  rw [hp]

theorem opt_eq_ok {found : Option α} : opt p input = .ok found rest ↔
    (∃ a, found = some a ∧ p input = .ok a rest) ∨ found = none ∧ rest = input ∧ Mismatches p input := by
  unfold opt Mismatches
  cases p input with
  | ok a mid =>
    simp only [Outcome.ok.injEq]
    grind
  | mismatch trace => simp [eq_comm]
  | failure trace => simp

theorem notFollowedBy_of_mismatch (hp : Mismatches p input) : notFollowedBy p input = .ok () input := by
  obtain ⟨trace, hp⟩ := hp
  unfold notFollowedBy
  rw [hp]

theorem Mismatches.notFollowedBy (hp : p input = .ok a mid) : Mismatches (notFollowedBy p) input := by
  refine ⟨[⟨input, .rule .absence⟩], ?_⟩
  unfold Parser.notFollowedBy
  rw [hp]

theorem Mismatches.ne_ok (hp : Mismatches p input) : p input ≠ .ok a rest := by
  obtain ⟨trace, hp⟩ := hp
  rw [hp]
  nofun

theorem firstOf_of_ok {ps : List (Parser α)} (hp : p input = .ok a mid) : firstOf (p :: ps) input = .ok a mid := by
  cases ps <;> unfold firstOf <;> rw [hp]

theorem Mismatches.of_firstOf {ps : List (Parser α)} (hps : Mismatches (Parser.firstOf ps) input) :
    ∀ p ∈ ps, Mismatches p input := by
  obtain ⟨trace, hps⟩ := hps
  fun_induction Parser.firstOf ps input with
  | case1 => exact List.forall_mem_nil _
  | case2 p input trace hp => exact List.forall_mem_singleton.2 ⟨trace, hp⟩
  | case3 p input hp =>
    exact absurd hps (hp _)
  | case4 p q ps input trace hp ih => exact List.forall_mem_cons.2 ⟨⟨trace, hp⟩, ih hps⟩
  | case5 p q ps input hp => exact absurd hps (hp _)

/-- The other alternatives are tried only where the first one mismatches. -/
theorem firstOf_of_ne_mismatch {q : Parser α} {ps : List (Parser α)} (hp : ∀ trace, p input ≠ .mismatch trace) :
    firstOf (p :: q :: ps) input = p input := by
  unfold firstOf
  split
  · next trace hmismatch => exact absurd hmismatch (hp trace)
  · rfl

theorem firstOf_of_mismatch {q : Parser α} {ps : List (Parser α)} (hp : Mismatches p input) :
    firstOf (p :: q :: ps) input = firstOf (q :: ps) input := by
  obtain ⟨trace, hp⟩ := hp
  rw [firstOf, hp]

theorem Mismatches.firstOf_nil : Mismatches (Parser.firstOf ([] : List (Parser α))) input := ⟨_, rfl⟩

theorem Mismatches.firstOf_cons {ps : List (Parser α)} (hp : Mismatches p input)
    (hps : Mismatches (Parser.firstOf ps) input) : Mismatches (Parser.firstOf (p :: ps)) input := by
  cases ps with
  | nil =>
    obtain ⟨trace, hp⟩ := hp
    exact ⟨_, by rw [Parser.firstOf, hp]⟩
  | cons q ps =>
    obtain ⟨trace, hps⟩ := hps
    exact ⟨trace, by rw [firstOf_of_mismatch hp, hps]⟩

theorem Mismatches.firstOf {ps : List (Parser α)} (hps : ∀ p ∈ ps, Mismatches p input) :
    Mismatches (firstOf ps) input := by
  induction ps with
  | nil => exact .firstOf_nil
  | cons p ps ih => exact .firstOf_cons (hps p List.mem_cons_self) (ih fun q hq => hps q (List.mem_cons_of_mem p hq))

/-- Only if no alternative in front matches, those behind are tried. -/
theorem firstOf_append {ps qs : List (Parser α)} (hqs : qs ≠ []) (input : Text) :
    Parser.firstOf (ps ++ qs) input = match Parser.firstOf ps input with
      | .mismatch _ => Parser.firstOf qs input
      | outcome => outcome := by
  obtain ⟨q, qs, rfl⟩ := List.exists_cons_of_ne_nil hqs
  induction ps with
  | nil => rfl
  | cons p ps ih =>
    cases ps with
    | nil =>
      rw [List.cons_append, List.nil_append, Parser.firstOf, Parser.firstOf]
      cases p input <;> rfl
    | cons r ps =>
      rw [List.cons_append, List.cons_append, Parser.firstOf, ← List.cons_append, ih, Parser.firstOf]
      cases p input <;> rfl

theorem firstOf_append_of_mismatch {ps qs : List (Parser α)} (hqs : qs ≠ [])
    (hps : Mismatches (Parser.firstOf ps) input) : Parser.firstOf (ps ++ qs) input = Parser.firstOf qs input := by
  obtain ⟨trace, hps⟩ := hps
  rw [firstOf_append hqs, hps]

theorem firstOf_append_eq_ok {ps qs : List (Parser α)} (hqs : qs ≠ []) :
    Parser.firstOf (ps ++ qs) input = .ok a rest ↔
      Parser.firstOf ps input = .ok a rest ∨ Mismatches (Parser.firstOf ps) input ∧ Parser.firstOf qs input = .ok a rest := by
  rw [firstOf_append hqs, Mismatches]
  cases Parser.firstOf ps input <;> simp

/-- The alternatives in front of the one that reads the text do not match. -/
theorem firstOf_append_of_ok {ps qs : List (Parser α)} (hps : ∀ q ∈ ps, Mismatches q input)
    (hp : p input = .ok a mid) : firstOf (ps ++ p :: qs) input = .ok a mid := by
  rw [firstOf_append_of_mismatch (List.cons_ne_nil p qs) (.firstOf hps)]
  exact firstOf_of_ok hp

/-! ### Repetition -/

theorem many_eq_nil (hmany : many p input = .ok [] rest) : rest = input := by
  rw [many] at hmany
  split at hmany
  · split at hmany
    · obtain ⟨_, -, hcons⟩ := Outcome.map_eq_ok.1 hmany
      cases hcons
    · cases hmany
  · cases hmany
    rfl
  · cases hmany

theorem many_of_mismatch (hp : Mismatches p input) : many p input = .ok [] input := by
  obtain ⟨trace, hp⟩ := hp
  rw [many, hp]

theorem many_of_ok (hp : p input = .ok a mid) (hlt : mid.length < input.length) :
    many p input = (many p mid).map (a :: ·) := by
  rw [many, hp]
  exact if_pos hlt

theorem Mismatches.many1 (hp : Mismatches p input) : Mismatches (many1 p) input := by
  obtain ⟨trace, hp⟩ := hp
  exact ⟨_, by rw [Parser.many1, hp]⟩

/-- Where there are items, there is at least one. -/
theorem many1_of_many {list : List α} (hread : many p input = .ok list rest) (hne : list ≠ []) :
    many1 p input = .ok list rest := by
  rw [many] at hread
  cases hp : p input with
  | ok a mid =>
    rw [hp] at hread
    dsimp only at hread
    split at hread
    · rw [many1, hp]
      exact hread
    · cases hread
  | mismatch trace =>
    rw [hp] at hread
    cases hread
    exact absurd rfl hne
  | failure trace =>
    rw [hp] at hread
    cases hread

/-- What holds of every item that can be read, holds of all that are. -/
theorem forall_mem_of_many {property : α → Prop} (hp : ∀ {input a rest}, p input = .ok a rest → property a) {list : List α}
    (hread : many p input = .ok list rest) : ∀ a ∈ list, property a := by
  fun_induction many p input generalizing list with
  | case1 input a mid ha _ ih =>
    obtain ⟨tail, htail, rfl⟩ := Outcome.map_eq_ok.1 hread
    exact List.forall_mem_cons.2 ⟨hp ha, ih htail⟩
  | case2 => cases hread
  | case3 =>
    cases hread
    exact List.forall_mem_nil _
  | case4 => cases hread

theorem manyTill_of_stop {stop : Parser β} {b : β} (hstop : stop input = .ok b mid) :
    manyTill p stop input = .ok [] mid := by
  rw [manyTill, hstop]

theorem manyTill_of_ok {stop : Parser β} (hstop : Mismatches stop input) (hp : p input = .ok a mid)
    (hlt : mid.length < input.length) : manyTill p stop input = (manyTill p stop mid).map (a :: ·) := by
  obtain ⟨trace, hstop⟩ := hstop
  rw [manyTill, hstop, hp]
  exact if_pos hlt

theorem sepTail_of_mismatch {separator : Parser β} (hseparator : Mismatches separator input) :
    sepTail separator p input = .ok [] input := by
  obtain ⟨trace, hseparator⟩ := hseparator
  rw [sepTail, hseparator]

theorem sepTail_of_item_mismatch {separator : Parser β} {b : β} (hseparator : separator input = .ok b mid)
    (hp : Mismatches p mid) : sepTail separator p input = .ok [] input := by
  obtain ⟨trace, hp⟩ := hp
  rw [sepTail, hseparator]
  dsimp only
  rw [hp]

theorem sepTail_of_ok {separator : Parser β} {b : β} (hseparator : separator input = .ok b mid)
    (hp : p mid = .ok a rest) (hlt : rest.length < input.length) :
    sepTail separator p input = (sepTail separator p rest).map (a :: ·) := by
  rw [sepTail, hseparator]
  dsimp only
  rw [hp]
  exact if_pos hlt

theorem sepBy_of_mismatch {separator : Parser β} (hp : Mismatches p input) :
    sepBy separator p input = .ok [] input := by
  obtain ⟨trace, hp⟩ := hp
  rw [sepBy, hp]

theorem sepBy_of_ok {separator : Parser β} (hp : p input = .ok a mid) :
    sepBy separator p input = (sepTail separator p mid).map (a :: ·) := by
  rw [sepBy, hp]

theorem sepBy1_of_ok {separator : Parser β} (hp : p input = .ok a mid) :
    sepBy1 separator p input = (sepTail separator p mid).map (a :: ·) := by
  rw [sepBy1, bind_of_ok hp, bind_apply]
  cases sepTail separator p mid <;> rfl

theorem Mismatches.sepBy1 {separator : Parser β} (hp : Mismatches p input) :
    Mismatches (sepBy1 separator p) input := hp.bind

/-- Behind a separator the list goes on as one that begins there. -/
theorem sepTail_of_separator {separator : Parser β} {b : β} (hseparator : separator input = .ok b mid)
    (hlt : ∀ a rest, p mid = .ok a rest → rest.length < input.length)
    (hne : ∀ trace, sepBy1 separator p mid ≠ .mismatch trace) : sepTail separator p input = sepBy1 separator p mid := by
  rw [sepTail, hseparator]
  dsimp only
  cases hp : p mid with
  | ok a rest =>
    rw [sepBy1_of_ok hp]
    exact if_pos (hlt a rest hp)
  | mismatch trace =>
    have hmismatch : Mismatches (sepBy1 separator p) mid := .sepBy1 ⟨trace, hp⟩
    obtain ⟨other, hother⟩ := hmismatch
    exact absurd hother (hne other)
  | failure trace =>
    rw [sepBy1, bind_apply, hp]
    rfl

/-! ### Lists

A list is read back if each item is read in front of whatever may follow it, and a separator may follow.
-/

section Lists

variable {γ : Type} {separator : Parser β} {b : β} {sep : Text} {c : γ} {items : List γ} {Follows : Text → Prop}
variable (text : γ → Text) (value : γ → α)

theorem follows_flatMap (hsep : ∀ tail, Follows (sep ++ tail)) (hrest : Follows rest) :
    Follows (items.flatMap (fun c => sep ++ text c) ++ rest) := by
  cases items with
  | nil => exact hrest
  | cons c items =>
    rw [List.flatMap_cons, List.append_assoc, List.append_assoc]
    exact hsep _

theorem sepTail_flatMap (hsep_ne : sep ≠ []) (hsep : ∀ tail, Follows (sep ++ tail))
    (hseparator : ∀ c ∈ items, ∀ tail, Follows tail → separator (sep ++ (text c ++ tail)) = .ok b (text c ++ tail))
    (hitems : ∀ c ∈ items, ∀ tail, Follows tail → p (text c ++ tail) = .ok (value c) tail)
    (hstop : Mismatches separator rest) (hrest : Follows rest) :
    sepTail separator p (items.flatMap (fun c => sep ++ text c) ++ rest) = .ok (items.map value) rest := by
  induction items with
  | nil => exact sepTail_of_mismatch hstop
  | cons c items ih =>
    have htail := ih (fun d hd => hseparator d (List.mem_cons_of_mem c hd))
      fun d hd => hitems d (List.mem_cons_of_mem c hd)
    have hfollows : Follows (items.flatMap (fun c => sep ++ text c) ++ rest) := follows_flatMap text hsep hrest
    have hlt : 0 < sep.length := List.length_pos_iff.2 hsep_ne
    rw [List.flatMap_cons, List.append_assoc, List.append_assoc,
      sepTail_of_ok (hseparator c List.mem_cons_self _ hfollows) (hitems c List.mem_cons_self _ hfollows), htail]
    · rfl
    · simp only [List.length_append]
      omega

theorem sepBy_flatMap (hsep_ne : sep ≠ []) (hsep : ∀ tail, Follows (sep ++ tail))
    (hseparator : ∀ c ∈ items, ∀ tail, Follows tail → separator (sep ++ (text c ++ tail)) = .ok b (text c ++ tail))
    (hitems : ∀ d ∈ c :: items, ∀ tail, Follows tail → p (text d ++ tail) = .ok (value d) tail)
    (hstop : Mismatches separator rest) (hrest : Follows rest) :
    sepBy separator p (text c ++ items.flatMap (fun c => sep ++ text c) ++ rest) = .ok ((c :: items).map value) rest := by
  have htail := sepTail_flatMap text value hsep_ne hsep hseparator (fun d hd => hitems d (List.mem_cons_of_mem c hd))
    hstop hrest
  rw [List.append_assoc, sepBy_of_ok (hitems c List.mem_cons_self _ (follows_flatMap text hsep hrest)), htail]
  rfl

theorem sepBy1_flatMap (hsep_ne : sep ≠ []) (hsep : ∀ tail, Follows (sep ++ tail))
    (hseparator : ∀ c ∈ items, ∀ tail, Follows tail → separator (sep ++ (text c ++ tail)) = .ok b (text c ++ tail))
    (hitems : ∀ d ∈ c :: items, ∀ tail, Follows tail → p (text d ++ tail) = .ok (value d) tail)
    (hstop : Mismatches separator rest) (hrest : Follows rest) :
    sepBy1 separator p (text c ++ items.flatMap (fun c => sep ++ text c) ++ rest) = .ok ((c :: items).map value) rest := by
  have htail := sepTail_flatMap text value hsep_ne hsep hseparator (fun d hd => hitems d (List.mem_cons_of_mem c hd))
    hstop hrest
  rw [List.append_assoc, sepBy1_of_ok (hitems c List.mem_cons_self _ (follows_flatMap text hsep hrest)), htail]
  rfl

end Lists

/-- The knot on an input is its body there, with the knot for all shorter inputs. -/
theorem recurse_apply (body : Parser α → Parser α) (input : Text) : recurse body input =
    body (fun rest => if rest.length < input.length then recurse body rest else .mismatch []) input := by
  rw [recurse]

/-! ### Primitive parsers -/

theorem char_cons (c : Char) (rest : Text) : char c (c :: rest) = .ok c rest := if_pos rfl

theorem char_eq_ok {c d : Char} : char c input = .ok d rest ↔ d = c ∧ input = c :: rest := by
  refine ⟨fun hchar => ?_, ?_⟩
  · unfold char at hchar
    split at hchar
    · split at hchar
      · next heq =>
        cases hchar
        exact ⟨rfl, by rw [heq]⟩
      · cases hchar
    · cases hchar
  · rintro ⟨rfl, rfl⟩
    exact char_cons d rest

theorem eof_eq_ok : eof input = .ok () rest ↔ input = [] ∧ rest = [] := by
  cases input with
  | nil => simp [eof, eq_comm]
  | cons c input => simp [eof]

theorem head?_cons_ne {c d : Char} (hne : c ≠ d) (rest : Text) : (c :: rest).head? ≠ some d :=
  fun heq => hne (Option.some.inj heq)

theorem char_of_ne {c : Char} (hinput : input.head? ≠ some c) : Mismatches (char c) input := by
  cases input with
  | nil => exact ⟨_, rfl⟩
  | cons d rest => exact ⟨_, if_neg fun hd => hinput (congrArg some hd)⟩

theorem satisfy_cons {property : Char → Bool} {c : Char} (hc : property c = true) (rest : Text) :
    satisfy property (c :: rest) = .ok c rest := if_pos hc

theorem satisfy_eq_ok {property : Char → Bool} {c : Char} :
    satisfy property input = .ok c rest ↔ property c = true ∧ input = c :: rest := by
  cases input with
  | nil => simp [satisfy]
  | cons d tail =>
    simp only [satisfy]
    split
    · next hd =>
      constructor
      · intro h
        cases h
        exact ⟨hd, rfl⟩
      · rintro ⟨-, heq⟩
        cases heq
        rfl
    · next hd =>
      constructor
      · intro h
        cases h
      · rintro ⟨hc, heq⟩
        cases heq
        exact absurd hc hd

theorem satisfy_of_not {property : Char → Bool} (hinput : ∀ c ∈ input.head?, property c = false) :
    Mismatches (satisfy property) input := by
  cases input with
  | nil => exact ⟨_, rfl⟩
  | cons c rest => exact ⟨_, if_neg (Bool.eq_false_iff.1 (hinput c rfl))⟩

theorem takeWhile_eq_ok {property : Char → Bool} {run : Text} : takeWhile property input = .ok run rest ↔
    input = run ++ rest ∧ (∀ c ∈ run, property c = true) ∧ ∀ c ∈ rest.head?, property c = false := by
  constructor
  · intro hread
    cases hread
    refine ⟨List.takeWhile_append_dropWhile.symm, List.all_eq_true.1 List.all_takeWhile, fun c hc => ?_⟩
    have hhead := List.head?_dropWhile_not property input
    rw [hc] at hhead
    exact hhead
  · rintro ⟨rfl, hrun, hrest⟩
    have hstop : rest.takeWhile property = [] ∧ rest.dropWhile property = rest := by
      cases rest with
      | nil => exact ⟨rfl, rfl⟩
      | cons c tail =>
        have hc := Bool.eq_false_iff.1 (hrest c rfl)
        exact ⟨List.takeWhile_cons_of_neg hc, List.dropWhile_cons_of_neg hc⟩
    rw [takeWhile, List.takeWhile_append_of_pos hrun, List.dropWhile_append_of_pos hrun, hstop.1, hstop.2, List.append_nil]

theorem takeWhile1_eq_ok {rule : Rule} {property : Char → Bool} {run : Text} : takeWhile1 rule property input = .ok run rest ↔
    run ≠ [] ∧ input = run ++ rest ∧ (∀ c ∈ run, property c = true) ∧ ∀ c ∈ rest.head?, property c = false := by
  rw [← takeWhile_eq_ok, takeWhile]
  cases input with
  | nil => simp +contextual [takeWhile1, eq_comm]
  | cons c tail =>
    rw [takeWhile1]
    by_cases hc : property c = true
    · rw [if_pos hc, List.takeWhile_cons_of_pos hc, List.dropWhile_cons_of_pos hc]
      refine ⟨fun hread => ⟨?_, hread⟩, And.right⟩
      cases hread
      exact List.cons_ne_nil _ _
    · rw [if_neg hc, List.takeWhile_cons_of_neg hc]
      constructor
      · intro hread
        cases hread
      · rintro ⟨hne, hread⟩
        cases hread
        exact absurd rfl hne

theorem oneOf_of_mem {chars : Text} {c : Char} (hc : c ∈ chars) (rest : Text) :
    oneOf chars (c :: rest) = .ok c rest := if_pos (List.contains_iff_mem.2 hc)

theorem literal_append (word : String) (rest : Text) : literal word (word.toList ++ rest) = .ok word.toList rest := by
  unfold literal
  rw [Text.after?_eq_some_iff.2 rfl]

theorem literal_eq_ok {word : String} {text : Text} :
    literal word input = .ok text rest ↔ text = word.toList ∧ input = word.toList ++ rest := by
  refine ⟨fun hword => ?_, ?_⟩
  · unfold literal at hword
    split at hword
    · next hafter =>
      cases hword
      exact ⟨rfl, Text.after?_eq_some_iff.1 hafter⟩
    · cases hword
  · rintro ⟨rfl, rfl⟩
    exact literal_append word rest

theorem literal_of_toList {word : String} {text : Text} (hword : word.toList = text) (rest : Text) :
    literal word (text ++ rest) = .ok text rest := by
  subst hword
  exact literal_append word rest

theorem literal_of_not_begins {word : String} (hinput : ¬word.toList <+: input) : Mismatches (literal word) input := by
  unfold Mismatches literal
  cases hafter : Text.after? word.toList input with
  | none => exact ⟨_, rfl⟩
  | some rest => exact absurd ⟨rest, (Text.after?_eq_some_iff.1 hafter).symm⟩ hinput

theorem literal_of_ne {word : String} {c : Char} {tail : Text} (hword : word.toList = c :: tail)
    (hinput : input.head? ≠ some c) : Mismatches (literal word) input := by
  refine literal_of_not_begins ?_
  rintro ⟨rest, rfl⟩
  refine hinput ?_
  rw [hword]
  rfl

end HeaderOutline.Parser
