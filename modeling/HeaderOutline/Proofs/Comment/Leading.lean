import HeaderOutline.Comment
import HeaderOutline.Proofs.Grammar
import HeaderOutline.Proofs.Lexeme.WrittenGap
/-!
# The comment in front of a declaration

A declaration takes the comment in front of it and is read behind the gap that the comment belongs to. So two
texts that are the same behind their gaps are read as the same declaration, up to its comment. A comment line
in front of a text makes no difference to what is behind its gap.
-/

namespace HeaderOutline

open HeaderOutline.Parser

variable {α β γ δ : Type} {p : Parser α} {input rest : Text}

/-! ### Comments belong to gaps -/

/-- What the parser reads belongs to a gap. -/
class Parser.InGap (p : Parser α) : Prop where
  gapEnd_eq : ∀ {input a rest}, p input = .ok a rest → gapEnd rest = gapEnd input

namespace Parser.InGap

instance (a : α) : InGap (pure a : Parser α) where
  gapEnd_eq hok := by
    cases hok
    rfl

instance {f : α → Parser β} [InGap p] [∀ a, InGap (f a)] : InGap (p >>= f) where
  gapEnd_eq hok := by
    obtain ⟨a, mid, hp, hf⟩ := bind_eq_ok.1 hok
    rw [gapEnd_eq hf, gapEnd_eq hp]

instance [InGap p] : InGap (opt p) where
  gapEnd_eq {input a rest} hok := by
    unfold opt at hok
    split at hok
    · next hp =>
      cases hok
      exact gapEnd_eq hp
    · cases hok
      rfl
    · cases hok

instance : InGap (firstOf ([] : List (Parser α))) where
  gapEnd_eq hok := by cases hok

instance {ps : List (Parser α)} [InGap p] [hps : InGap (firstOf ps)] : InGap (firstOf (p :: ps)) where
  gapEnd_eq {input a rest} hok := by
    cases hp : p input with
    | ok b mid =>
      rw [firstOf_of_ok hp] at hok
      cases hok
      exact gapEnd_eq hp
    | mismatch trace =>
      cases ps with
      | nil =>
        rw [firstOf, hp] at hok
        cases hok
      | cons q ps => exact hps.gapEnd_eq ((firstOf_of_mismatch ⟨trace, hp⟩).symm.trans hok)
    | failure trace =>
      cases ps <;> rw [firstOf, hp] at hok <;> cases hok

instance [InGap p] : InGap (many p) where
  gapEnd_eq {input as rest} hok := by
    fun_induction many p input generalizing as with
    | case1 input a mid hp _ ih =>
      obtain ⟨tail, htail, -⟩ := Outcome.map_eq_ok.1 hok
      rw [ih htail, gapEnd_eq hp]
    | case2 => cases hok
    | case3 =>
      cases hok
      rfl
    | case4 => cases hok

instance [InGap p] : InGap (many1 p) where
  gapEnd_eq {input as rest} hok := by
    unfold many1 at hok
    split at hok
    · next hp =>
      obtain ⟨tail, htail, -⟩ := Outcome.map_eq_ok.1 hok
      rw [gapEnd_eq htail, gapEnd_eq hp]
    · cases hok
    · cases hok

instance : InGap spaces0 where
  gapEnd_eq {input a rest} hok := by
    cases hok
    exact gapEnd_dropWhile input

instance : InGap lineEnding where
  gapEnd_eq {input a rest} hok := by
    unfold lineEnding at hok
    split at hok
    · cases hok
      have hspaces : IsSpaces ['\n'] := by decide
      exact (gapEnd_append hspaces rest).symm
    · cases hok
      have hspaces : IsSpaces ['\r', '\n'] := by decide
      exact (gapEnd_append hspaces rest).symm
    · cases hok

end Parser.InGap

namespace Comment

/-- The marks of a line comment, and what is left behind each. -/
theorem mark_eq_ok {mark mid : Text}
    (hmark : firstOf [literal "///", literal "//!", literal "//"] input = .ok mark mid) :
    ∃ more, (∀ c ∈ more, isInLine c = true) ∧ input = '/' :: '/' :: (more ++ mid) := by
  obtain ⟨p, hp, hok⟩ := firstOf_eq_ok hmark
  simp only [List.mem_cons, List.not_mem_nil, or_false] at hp
  rcases hp with rfl | rfl | rfl
  · exact ⟨['/'], by decide, (literal_eq_ok.1 hok).2⟩
  · exact ⟨['!'], by decide, (literal_eq_ok.1 hok).2⟩
  · exact ⟨[], by decide, (literal_eq_ok.1 hok).2⟩

instance : InGap oneLine where
  gapEnd_eq {input a rest} hok := by
    obtain ⟨mark, mid, hmark, hread⟩ := bind_eq_ok.1 hok
    obtain ⟨line, behind, hline, hread⟩ := bind_eq_ok.1 hread
    obtain ⟨more, hmore, rfl⟩ := mark_eq_ok hmark
    rw [InGap.gapEnd_eq hread, gapEnd_of_behindComment? (behindComment?_line (restOfLine_append hmore hline))]

instance : InGap blockLines where
  gapEnd_eq {input a rest} hok := by
    obtain ⟨mark, mid, hmark, hok⟩ := bind_eq_ok.1 hok
    obtain ⟨content, behind, hcontent, hok⟩ := bind_eq_ok.1 hok
    obtain ⟨closing, last, hclosing, hok⟩ := bind_eq_ok.1 hok
    cases hok
    obtain ⟨-, rfl⟩ := literal_eq_ok.1 hmark
    obtain ⟨-, rfl⟩ := literal_eq_ok.1 hclosing
    unfold takeUntil at hcontent
    split at hcontent
    · next hsplit =>
      cases hcontent
      refine (gapEnd_of_behindComment? ?_).symm
      change behindComment? ('/' :: '*' :: mid) = some rest
      simp only [behindComment?, hsplit]
      rfl
    · cases hcontent

end Comment

instance : InGap comment := by
  unfold comment
  infer_instance

/-- The comment in front of a declaration is read with the whole gap around it. -/
theorem leadingComment_apply (input : Text) : ∃ text, leadingComment input = .ok text (gapEnd input) := by
  cases hcomment : opt comment (input.dropWhile isSpace) with
  | ok text rest =>
    have hgap : gapEnd rest = gapEnd input := by
      rw [InGap.gapEnd_eq hcomment, gapEnd_dropWhile]
    refine ⟨text, ?_⟩
    rw [leadingComment, bind_of_ok (p := spaces0) rfl, bind_of_ok hcomment, bind_of_ok (skipGap_apply rest), hgap]
    rfl
  | mismatch trace => exact absurd hcomment (Decided.ne_mismatch _ trace)
  | failure trace => exact absurd hcomment (BoundedBy.ne_failure _ trace)

/-! ### Comment lines -/

/-- Whichever mark the line is taken to have, its end is left, and what is taken off is margin. -/
theorem mark_append (line : Text) {behind : Text} (hbehind : ∀ c ∈ behind.head?, isInLine c = false) : ∃ mark lost more,
    line = lost ++ more ∧ (∀ c ∈ lost, Comment.isMargin c = true) ∧
      firstOf [literal "///", literal "//!", literal "//"] ('/' :: '/' :: (line ++ behind)) = .ok mark (more ++ behind) := by
  have hbare {s : Text} (hs : ∀ c ∈ s.head?, c ≠ '/' ∧ c ≠ '!') :
      firstOf [literal "///", literal "//!", literal "//"] ('/' :: '/' :: s) = .ok ['/', '/'] s := by
    cases s with
    | nil => rfl
    | cons c s =>
      obtain ⟨hslash, hbang⟩ := hs c rfl
      simp [firstOf, literal, Text.after?, Ne.symm hslash, Ne.symm hbang]
  cases line with
  | nil =>
    refine ⟨_, [], [], rfl, List.forall_mem_nil _, hbare fun c hc => ⟨?_, ?_⟩⟩ <;> rintro rfl <;> cases hbehind _ hc
  | cons c line =>
    by_cases hslash : c = '/'
    · subst hslash
      exact ⟨_, ['/'], line, rfl, by decide, rfl⟩
    · by_cases hbang : c = '!'
      · subst hbang
        exact ⟨_, ['!'], line, rfl, by decide, rfl⟩
      · refine ⟨_, [], c :: line, rfl, List.forall_mem_nil _, hbare ?_⟩
        rintro d ⟨⟩
        exact ⟨hslash, hbang⟩

theorem many_ok [BoundedBy [] p] [Consuming p] (input : Text) : ∃ list rest, many p input = .ok list rest := by
  fun_induction many p input with
  | case1 input a mid hp _ ih =>
    obtain ⟨list, rest, hlist⟩ := ih
    exact ⟨a :: list, rest, by rw [hlist]; rfl⟩
  | case2 input a mid hp hlt => exact absurd (Consuming.lt hp) hlt
  | case3 input => exact ⟨[], input, rfl⟩
  | case4 input trace hp => exact absurd hp (BoundedBy.ne_failure input trace)

/-- A line comment with its line feed. -/
def commentLine (line : Text) : Text := '/' :: '/' :: (line ++ ['\n'])

section CommentLine

variable {line : Text} (hline : ∀ c ∈ line, isInLine c = true)

include hline

theorem restOfLine_newline (input : Text) : restOfLine (line ++ '\n' :: input) = .ok line ('\n' :: input) := by
  have hend : restOfLine ('\n' :: input) = .ok [] ('\n' :: input) := rfl
  rw [restOfLine_append hline hend, List.append_nil]

theorem gapEnd_commentLine (input : Text) : gapEnd (commentLine line ++ input) = gapEnd input := by
  have htext : commentLine line ++ input = '/' :: '/' :: (line ++ '\n' :: input) := by simp [commentLine]
  have hspaces : IsSpaces ['\n'] := by decide
  rw [htext, gapEnd_of_behindComment? (behindComment?_line (restOfLine_newline hline input))]
  exact gapEnd_append hspaces input

theorem oneLine_commentLine (input : Text) : ∃ text, Comment.oneLine (commentLine line ++ input) = .ok text input := by
  have hbehind : ∀ c ∈ ('\n' :: input).head?, isInLine c = false := by
    rintro c ⟨⟩
    rfl
  obtain ⟨mark, lost, more, rfl, -, hmark⟩ := mark_append line hbehind
  have hmore : ∀ c ∈ more, isInLine c = true := fun c hc => hline c (List.mem_append_right lost hc)
  have htext : commentLine (lost ++ more) ++ input = '/' :: '/' :: (lost ++ more ++ '\n' :: input) := by simp [commentLine]
  have hending : opt lineEnding ('\n' :: input) = .ok (some ['\n']) input := opt_of_ok rfl
  rw [htext, Comment.oneLine, bind_of_ok hmark, bind_of_ok (restOfLine_newline hmore input), bind_of_ok hending]
  exact ⟨_, rfl⟩

theorem many_commentLine {list : List Text} (hmany : many (do let _ ← spaces0; Comment.oneLine) input = .ok list rest) :
    ∃ first, many (do let _ ← spaces0; Comment.oneLine) (commentLine line ++ input) = .ok (first :: list) rest := by
  obtain ⟨first, hfirst⟩ := oneLine_commentLine hline input
  have hstart : spaces0 (commentLine line ++ input) = .ok [] (commentLine line ++ input) := rfl
  have hitem := (bind_of_ok (f := fun _ => Comment.oneLine) hstart).trans hfirst
  refine ⟨first, ?_⟩
  rw [many_of_ok hitem (Consuming.lt hitem), hmany]
  rfl

omit hline in
theorem comment_of_many {list : List Text} (hmany : many (do let _ ← spaces0; Comment.oneLine) input = .ok list rest)
    (hne : list ≠ []) : comment input = .ok (Text.join ['\n'] list) rest := by
  rw [comment, bind_of_ok (firstOf_of_ok (many1_of_many hmany hne))]
  rfl

/-- A comment line is read alone, or with a comment behind it. -/
theorem comment_commentLine (input : Text) : ∃ text rest, comment (commentLine line ++ input) = .ok text rest ∧
    (rest = input ∨ ∃ other, comment input = .ok other rest) := by
  obtain ⟨list, rest, hmany⟩ := many_ok (p := do let _ ← spaces0; Comment.oneLine) input
  obtain ⟨first, hlines⟩ := many_commentLine hline hmany
  refine ⟨_, rest, comment_of_many hlines (List.cons_ne_nil _ _), ?_⟩
  cases list with
  | nil => exact .inl (many_eq_nil hmany)
  | cons text list => exact .inr ⟨_, comment_of_many hmany (List.cons_ne_nil _ _)⟩

/-- A comment line behind a comment line goes to the same comment. -/
theorem comment_commentLines {first text : Text} (hfirst : ∀ c ∈ first, isInLine c = true)
    (hcomment : comment (commentLine first ++ input) = .ok text rest) :
    ∃ other, comment (commentLine first ++ (commentLine line ++ input)) = .ok other rest := by
  obtain ⟨list, behind, hmany⟩ := many_ok (p := do let _ ← spaces0; Comment.oneLine) input
  obtain ⟨text', hplain⟩ := many_commentLine hfirst hmany
  obtain ⟨second, hsecond⟩ := many_commentLine hline hmany
  obtain ⟨text'', hlines⟩ := many_commentLine hfirst hsecond
  cases (comment_of_many hplain (List.cons_ne_nil _ _)).symm.trans hcomment
  exact ⟨_, comment_of_many hlines (List.cons_ne_nil _ _)⟩

end CommentLine

/-! ### Readings that differ in comments -/

/-- The outcomes are the same but for what `erase` leaves out, and for the reasons of a mismatch. -/
inductive Outcome.Alike (erase : α → β) : Outcome α → Outcome α → Prop
  | ok {a b : α} {rest : Text} (hvalue : erase a = erase b) : Alike erase (.ok a rest) (.ok b rest)
  | mismatch {trace other : Trace} : Alike erase (.mismatch trace) (.mismatch other)
  | failure {trace : Trace} : Alike erase (.failure trace) (.failure trace)

namespace Outcome.Alike

variable {erase : α → β}

theorem refl (outcome : Outcome α) : Alike erase outcome outcome := by
  cases outcome with
  | ok a rest => exact .ok rfl
  | mismatch trace => exact .mismatch
  | failure trace => exact .failure

theorem map {eraseLast : γ → δ} {wrap : α → γ} {outcome other : Outcome α} (halike : Alike erase outcome other)
    (hwrap : ∀ a b, erase a = erase b → eraseLast (wrap a) = eraseLast (wrap b)) :
    Alike eraseLast (outcome.map wrap) (other.map wrap) := by
  cases halike with
  | ok hvalue => exact .ok (hwrap _ _ hvalue)
  | mismatch => exact .mismatch
  | failure => exact .failure

theorem ok_iff {outcome other : Outcome α} (halike : Alike erase outcome other) {a : α} (hok : outcome = .ok a rest) :
    ∃ b, other = .ok b rest ∧ erase a = erase b := by
  subst hok
  cases halike with
  | ok hvalue => exact ⟨_, rfl, hvalue⟩

theorem mismatches {p : Parser α} {input other : Text} (halike : Alike erase (p input) (p other))
    (hp : Mismatches p input) : Mismatches p other := by
  obtain ⟨trace, hp⟩ := hp
  rw [hp] at halike
  generalize houtcome : p other = outcome at halike
  cases halike
  exact ⟨_, houtcome⟩

end Outcome.Alike

/-- The parser takes the comment in front, and attaches it to what it reads behind the gap. -/
def Parser.TakesComment (p : Parser α) (attach : Option Text → α → α) : Prop :=
  ∃ bare, p = leadingComment >>= fun comment => attach comment <$> bare

namespace Parser.TakesComment

variable {attach : Option Text → α → α} {attachLast : Option Text → β → β}

theorem leadingComment {K : Option Text → Parser α} (hK : ∀ comment, K comment = attach comment <$> K none) :
    TakesComment (leadingComment >>= K) attach := ⟨K none, bind_congr hK⟩

/-- What follows may look at what was read, but hands the comment on. -/
theorem bind (hp : TakesComment p attach) {f : α → Parser β}
    (hf : ∀ comment a, f (attach comment a) = attachLast comment <$> f a) : TakesComment (p >>= f) attachLast := by
  obtain ⟨bare, rfl⟩ := hp
  refine ⟨bare >>= f, ?_⟩
  rw [bind_assoc]
  refine bind_congr fun comment => ?_
  rw [bind_map_left, map_bind]
  exact bind_congr fun a => hf comment a

end Parser.TakesComment

/-- Texts that are the same behind their gaps are read alike. -/
def Parser.SkipsComment (p : Parser α) (erase : α → β) : Prop :=
  ∀ input other, gapEnd input = gapEnd other → Outcome.Alike erase (p input) (p other)

namespace Parser.SkipsComment

variable {erase : α → β}

theorem afterGap (p : Parser α) : SkipsComment (afterGap p) erase := by
  intro input other hgap
  rw [afterGap_apply, afterGap_apply, hgap]
  exact .refl _

theorem of_takesComment {attach : Option Text → α → α}
    (hp : TakesComment p attach) (herase : ∀ comment other a, erase (attach comment a) = erase (attach other a)) :
    SkipsComment p erase := by
  obtain ⟨bare, rfl⟩ := hp
  intro input other hgap
  obtain ⟨text, hinput⟩ := leadingComment_apply input
  obtain ⟨text', hother⟩ := leadingComment_apply other
  rw [bind_of_ok hinput, bind_of_ok hother, map_apply, map_apply, hgap]
  cases bare (gapEnd other) with
  | ok a rest => exact .ok (herase text text' a)
  | mismatch trace => exact .mismatch
  | failure trace => exact .failure

theorem map (hp : SkipsComment p erase) {eraseLast : γ → δ} {wrap : α → γ}
    (hwrap : ∀ a b, erase a = erase b → eraseLast (wrap a) = eraseLast (wrap b)) :
    SkipsComment (wrap <$> p) eraseLast := by
  intro input other hgap
  rw [map_apply, map_apply]
  exact (hp input other hgap).map hwrap

theorem firstOf {ps : List (Parser α)} (hps : ∀ p ∈ ps, SkipsComment p erase) : SkipsComment (firstOf ps) erase := by
  intro input other hgap
  induction ps with
  | nil => exact .mismatch
  | cons p ps ih =>
    have hp := hps p List.mem_cons_self input other hgap
    have htail := ih fun q hq => hps q (List.mem_cons_of_mem p hq)
    cases ps with
    | nil =>
      unfold Parser.firstOf
      generalize p input = outcome at hp ⊢
      generalize p other = outcome' at hp ⊢
      cases hp with
      | ok hvalue => exact .ok hvalue
      | mismatch => exact .mismatch
      | failure => exact .failure
    | cons q ps =>
      unfold Parser.firstOf
      generalize p input = outcome at hp ⊢
      generalize p other = outcome' at hp ⊢
      cases hp with
      | ok hvalue => exact .ok hvalue
      | mismatch => exact htail
      | failure => exact .failure

end Parser.SkipsComment

end HeaderOutline
