import HeaderOutline.Proofs.Lexeme
import HeaderOutline.Proofs.Lexeme.Cut
import HeaderOutline.Proofs.Lexeme.Depth
import HeaderOutline.Proofs.Lexeme.Scan
/-!
# Texts that close what they open

A text is closed if its brackets match, its literals and comments end in it, and each attribute in double brackets ends at
the first `]]`. A scan that starts inside such a text at a place of code comes no further than to the bracket that closes
it, whatever stands behind the text.

In a declarator angle brackets may compare, so that they are left out. A *strictly* closed text is one of whole
declarations: angle brackets have to match as well, no directive stands in it, and what is skipped up to a semicolon holds
neither literals nor comments, since nobody looks for them there.
-/

namespace HeaderOutline

/-! ### Closed texts -/

/-- Whether everything that is open gets closed, and nothing else. The second argument may refuse a character of code in
front of a text. -/
def closesFrom (strict : Bool) (accepts : Char → Text → Bool) (opened : List Char) (mode : Scan.Mode) (before : Text) : Text → Bool
  | [] => opened.isEmpty && mode == .code
  | c :: rest =>
    match mode.step before c rest with
    | some mode' => closesFrom strict accepts opened mode' (c :: before) rest
    | none =>
      match bracketStep? strict opened c with
      | some opened' => accepts c rest && closesFrom strict accepts opened' .code (c :: before) rest
      | none => false

/-- Double brackets have a text between them that is closed and ends at the first `]]`. -/
def closesAttribute (strict : Bool) : Char → Text → Bool
  | '[', '[' :: content =>
    match Text.splitBefore? "]]".toList content with
    | some (text, _) => closesFrom strict (fun _ _ => true) [] .code [] text
    | none => false
  | _, _ => true

instance (c : Char) (rest : Text) : Decidable (Scan.IsCode c rest) := inferInstanceAs (Decidable (_ ∧ _ ∧ (_ → _)))

/-- Neither a literal nor a comment begins in front of the next of these characters. -/
def isPlain (stops : Text) : Text → Bool
  | [] => true
  | c :: rest => stops.contains c || decide (Scan.IsCode c rest) && isPlain stops rest

/-- What stands behind these words is skipped as it is. -/
def skipsPlainly (text : Text) : Bool :=
  (["using", "namespace"].all fun word => (Text.after? word.toList text).all (isPlain ";\x7b\x7d".toList)) &&
  ((Text.after? "template".toList text).all fun rest =>
    (rest.dropWhile Parser.isSpace).head? == some '<' || isPlain ";\x7b\x7d".toList rest) &&
  (Text.after? "operator".toList text).all (isPlain "(".toList)

/-- What a character of code may be. -/
def accepted (strict : Bool) (c : Char) (rest : Text) : Bool :=
  closesAttribute strict c rest && (!strict || c != '#' && skipsPlainly (c :: rest))

def IsClosed (strict : Bool) (text : Text) : Prop := closesFrom strict (accepted strict) [] .code [] text = true

instance (strict : Bool) (text : Text) : Decidable (IsClosed strict text) := inferInstanceAs (Decidable (_ = true))

/-! ### Steps of the scan -/

section Steps

variable {strict : Bool} {accepts : Char → Text → Bool} {opened : List Char} {mode mode' : Scan.Mode} {before before' rest text : Text}
  {c : Char}

/-- The scan only sees the number in front of a place. -/
theorem closesFrom_congr_before (hbefore : before.takeWhile Scan.isNumberChar = before'.takeWhile Scan.isNumberChar) :
    closesFrom strict accepts opened mode before text = closesFrom strict accepts opened mode before' text := by
  induction text generalizing opened mode before before' with
  | nil => rfl
  | cons c rest ih =>
    have hcons : (c :: before).takeWhile Scan.isNumberChar = (c :: before').takeWhile Scan.isNumberChar := by
      rw [List.takeWhile_cons, List.takeWhile_cons, hbefore]
    simp only [closesFrom, Scan.Mode.step_congr_before hbefore, ih hcons]

theorem closesFrom_of_step (hstep : mode.step before c rest = some mode') :
    closesFrom strict accepts opened mode before (c :: rest) = closesFrom strict accepts opened mode' (c :: before) rest := by
  rw [closesFrom, hstep]

/-- What a character of code does in a text that closes what is open. -/
theorem exists_of_closesFrom (hstep : mode.step before c rest = none)
    (hclosed : closesFrom strict accepts opened mode before (c :: rest) = true) :
    ∃ opened', BracketStep strict c opened opened' ∧ accepts c rest = true ∧
      closesFrom strict accepts opened' .code (c :: before) rest = true := by
  rw [closesFrom, hstep] at hclosed
  dsimp only at hclosed
  split at hclosed
  · next opened' hbehind =>
    obtain ⟨haccepts, hrest⟩ := Bool.and_eq_true_iff.1 hclosed
    exact ⟨opened', bracketStep?_eq_some.1 hbehind, haccepts, hrest⟩
  · cases hclosed

theorem eq_nil_of_closesFrom (hclosed : closesFrom strict accepts opened mode before [] = true) : opened = [] ∧ mode = .code := by
  rw [closesFrom] at hclosed
  simpa using hclosed

end Steps

/-! ### Ends -/

/-- A character comes next that ends a name, a gap and a number. -/
def IsEnd (tail : Text) : Prop := ∃ c ∈ [';', ',', '{', '}'], tail.head? = some c

theorem IsEnd.exists_cons {tail : Text} (htail : IsEnd tail) : ∃ c rest, tail = c :: rest ∧ c ∈ [';', ',', '{', '}'] := by
  obtain ⟨c, hc, hhead⟩ := htail
  obtain ⟨rest, rfl⟩ := List.head?_eq_some_iff.1 hhead
  exact ⟨c, rest, rfl, hc⟩

/-- A property that all these characters have. -/
theorem IsEnd.head {tail : Text} (htail : IsEnd tail) {property : Char → Prop} (hproperty : ∀ c ∈ [';', ',', '{', '}'], property c) :
    ∀ c ∈ tail.head?, property c := by
  obtain ⟨c, hc, hhead⟩ := htail
  rw [hhead]
  rintro d ⟨⟩
  exact hproperty c hc

theorem IsEnd.isNeutral {tail : Text} (htail : IsEnd tail) : Scan.IsNeutral tail := htail.head (by decide)

theorem IsEnd.startsToken {tail : Text} (htail : IsEnd tail) : StartsToken tail := htail.head (by decide)

theorem IsEnd.endsWord {tail : Text} (htail : IsEnd tail) : EndsWord tail := htail.head (by decide)

/-- What stands behind the same text in two runs. -/
structure EndPair where
  stop : Char
  stop' : Char
  back : Text
  back' : Text
  marks : ∀ c ∈ [stop, stop'], c ∈ [';', ',', '{', '}']

namespace EndPair

variable {ends : EndPair} {tail : Text} {c : Char}

def IsTail (ends : EndPair) (tail : Text) : Prop := tail = ends.stop :: ends.back ∨ tail = ends.stop' :: ends.back'

theorem IsTail.exists_cons (htail : ends.IsTail tail) : ∃ c rest, tail = c :: rest ∧ c ∈ [ends.stop, ends.stop'] := by
  rcases htail with rfl | rfl
  · exact ⟨_, _, rfl, List.mem_cons_self⟩
  · exact ⟨_, _, rfl, List.mem_cons_of_mem _ List.mem_cons_self⟩

theorem IsTail.isEnd (htail : ends.IsTail tail) : IsEnd tail := by
  obtain ⟨c, rest, rfl, hc⟩ := htail.exists_cons
  exact ⟨c, ends.marks c hc, rfl⟩

/-- Neither run comes to the character at the end of the text. -/
def Lacks (ends : EndPair) (c : Char) : Prop := c ∉ [ends.stop, ends.stop']

theorem lacks_of_not_mem (hc : c ∉ [';', ',', '{', '}']) : ends.Lacks c := fun hmem => hc (ends.marks c hmem)

theorem Lacks.head (hlacks : ends.Lacks c) (htail : ends.IsTail tail) : tail.head? ≠ some c := by
  obtain ⟨d, rest, rfl, hd⟩ := htail.exists_cons
  intro hhead
  obtain rfl := Option.some.inj hhead
  exact hlacks hd

/-- Both runs come to a character that ends a declarator. -/
def EndDeclarator (ends : EndPair) : Prop := ∀ c ∈ [ends.stop, ends.stop'], c ∈ [';', ',', '}']

theorem EndDeclarator.lacks_brace (hends : ends.EndDeclarator) : ends.Lacks '{' := fun hmem => absurd (hends _ hmem) (by decide)

/-- Both runs come to the same character, which ends a statement or a block. -/
structure Agree (ends : EndPair) : Prop where
  same : ends.stop' = ends.stop
  mem : ends.stop ∈ [';', '}']

theorem Agree.mem_of_mem (hagree : ends.Agree) (hc : c ∈ [ends.stop, ends.stop']) : c ∈ [';', '}'] := by
  rw [hagree.same] at hc
  simp only [List.mem_cons, List.not_mem_nil, or_false, or_self] at hc
  exact hc ▸ hagree.mem

theorem Agree.lacks (hagree : ends.Agree) (hc : c ∉ [';', '}']) : ends.Lacks c := fun hmem => hc (hagree.mem_of_mem hmem)

theorem Agree.endDeclarator (hagree : ends.Agree) : ends.EndDeclarator := by
  have hmarks : ∀ c ∈ [';', '}'], c ∈ [';', ',', '}'] := by decide
  exact fun c hc => hmarks c (hagree.mem_of_mem hc)

end EndPair

/-! ### Scans -/

section Scan

variable {σ : Type} {step : σ → Char → Option σ} {invariant : σ → List Char → Prop} {state : σ}
  {strict : Bool} {accepts : Char → Text → Bool} {brackets : List Char} {mode : Scan.Mode} {before text : Text} {c : Char}

/-- The state of a scan keeps its relation to the open brackets until the scan ends. -/
def Follows (strict : Bool) (step : σ → Char → Option σ) (invariant : σ → List Char → Prop) : Prop :=
  ∀ {state c brackets brackets'}, invariant state brackets → BracketStep strict c brackets brackets' →
    step state c = none ∨ ∃ state', step state c = some state' ∧ invariant state' brackets'

/-- A scan stops in front of a character of the text, or it comes to the end of the text with nothing open. -/
inductive Scans (strict : Bool) (accepts : Char → Text → Bool) (step : σ → Char → Option σ) (invariant : σ → List Char → Prop)
    (state : σ) (mode : Scan.Mode) (before text : Text) : Prop
  | stops {last : σ} {brackets : List Char} {mode' : Scan.Mode} {before' rest : Text} {c : Char} (hlast : invariant last brackets)
    (hstop : step last c = none) (hmode : mode'.step before' c rest = none)
    (hclosed : closesFrom strict accepts brackets mode' before' (c :: rest) = true)
    (hrun : ∀ tail, Scan.IsNeutral tail →
      Scan.run step state mode before (text ++ tail) = (last, before'.reverse, c :: rest ++ tail)) :
      Scans strict accepts step invariant state mode before text
  | ends {last : σ} (hlast : invariant last []) (hrun : ∀ tail, Scan.IsNeutral tail →
      Scan.run step state mode before (text ++ tail) = Scan.run step last .code (text.reverse ++ before) tail) :
      Scans strict accepts step invariant state mode before text

theorem Scans.cons {state' : σ} {mode' : Scan.Mode} (hscans : Scans strict accepts step invariant state' mode' (c :: before) text)
    (hrun : ∀ tail, Scan.IsNeutral tail →
      Scan.run step state mode before (c :: text ++ tail) = Scan.run step state' mode' (c :: before) (text ++ tail)) :
    Scans strict accepts step invariant state mode before (c :: text) := by
  cases hscans with
  | stops hlast hstop hmode hclosed hread => exact .stops hlast hstop hmode hclosed fun tail htail => (hrun tail htail).trans (hread tail htail)
  | ends hlast hread =>
    refine .ends hlast fun tail htail => ?_
    rw [hrun tail htail, hread tail htail, List.reverse_cons, List.append_assoc, List.singleton_append]

theorem scans_of_closesFrom (hfollows : Follows strict step invariant) (hstate : invariant state brackets)
    (hclosed : closesFrom strict accepts brackets mode before text = true) :
    Scans strict accepts step invariant state mode before text := by
  induction text generalizing state brackets mode before with
  | nil =>
    obtain ⟨rfl, rfl⟩ := eq_nil_of_closesFrom hclosed
    exact .ends hstate fun _ _ => rfl
  | cons c text ih =>
    cases hmode : mode.step before c text with
    | some mode' =>
      rw [closesFrom_of_step hmode] at hclosed
      refine (ih hstate hclosed).cons fun tail htail => ?_
      exact Scan.run_of_step ((Scan.Mode.step_append htail mode before c text).trans hmode)
    | none =>
      obtain ⟨brackets', hbracket, -, hrest⟩ := exists_of_closesFrom hmode hclosed
      have hmode' (tail : Text) (htail : Scan.IsNeutral tail) : mode.step before c (text ++ tail) = none := by
        rw [Scan.Mode.step_append htail, hmode]
      rcases hfollows hstate hbracket with hstop | ⟨state', hstep, hstate'⟩
      · refine .stops hstate hstop hmode hclosed fun tail htail => ?_
        rw [List.cons_append, Scan.run, hmode' tail htail]
        simp only [hstop]
      · refine (ih hstate' hrest).cons fun tail htail => ?_
        rw [List.cons_append, Scan.run, hmode' tail htail]
        simp only [hstep]

end Scan

/-! ### Blocks -/

section Block

variable {strict : Bool} {accepts : Char → Text → Bool} {opener closer c : Char} {opened base inner brackets brackets' : List Char}
  {mode : Scan.Mode} {before text : Text} {depth : Int}

/-- The depth of a block is at most the number of its own brackets that are open in it. It may be less in angle brackets,
since the block takes each greater sign for one of them. -/
def DepthOf (opener : Char) (opened : List Char) (depth : Int) (brackets : List Char) : Prop := ∃ inner base,
  brackets = inner ++ opener :: base ∧ opened.Sublist base ∧ 1 ≤ depth ∧ depth ≤ inner.count opener + 1

theorem depthOf_of_other (hpair : IsScannedPair opener closer) (hopener : c ≠ opener) (hcloser : c ≠ closer)
    (hdepth : DepthOf opener opened depth brackets) :
    ∃ depth', depthBehind opener closer depth c = some depth' ∧ DepthOf opener opened depth' brackets := by
  refine ⟨depth, ?_, hdepth⟩
  rw [depthBehind_eq hpair, if_neg hopener, if_neg hcloser]

theorem depthOf_of_opener (hpair : IsScannedPair opener closer) (hdepth : DepthOf opener opened depth brackets) :
    ∃ depth', depthBehind opener closer depth opener = some depth' ∧ DepthOf opener opened depth' (opener :: brackets) := by
  obtain ⟨inner, base, rfl, hopened, hdepth, hcount⟩ := hdepth
  refine ⟨depth + 1, ?_, opener :: inner, base, rfl, hopened, by omega, ?_⟩
  · rw [depthBehind_eq hpair, if_pos rfl]
  · rw [List.count_cons_self]
    push_cast
    omega

theorem depthOf_of_closer (hpair : IsScannedPair opener closer) (hopened : opened.Sublist base) (hdepth : 1 ≤ depth)
    (hcount : depth ≤ inner.count opener + 2) : depthBehind opener closer depth closer = none ∨
      ∃ depth', depthBehind opener closer depth closer = some depth' ∧ DepthOf opener opened depth' (inner ++ opener :: base) := by
  rw [depthBehind_eq hpair, if_neg hpair.ne, if_pos rfl]
  by_cases hone : depth = 1
  · exact .inl (if_pos hone)
  · exact .inr ⟨depth - 1, if_neg hone, inner, base, rfl, hopened, by omega, by omega⟩

/-- A bracket that is opened inside of a block, of its own kind or of another one. -/
theorem depthOf_cons (hpair : IsScannedPair opener closer) (hcloser : c ≠ closer) (hdepth : DepthOf opener opened depth brackets) :
    ∃ depth', depthBehind opener closer depth c = some depth' ∧ DepthOf opener opened depth' (c :: brackets) := by
  by_cases hc : c = opener
  · subst hc
    exact depthOf_of_opener hpair hdepth
  · obtain ⟨inner, base, rfl, hopened, hdepth, hcount⟩ := hdepth
    refine depthOf_of_other hpair hc hcloser ⟨c :: inner, base, rfl, hopened, hdepth, ?_⟩
    rwa [List.count_cons_of_ne hc]

theorem follows_depth (hpair : IsScannedPair opener closer) (hangle : opener = '<' → strict = true) :
    Follows strict (depthBehind opener closer) (DepthOf opener opened) := by
  rintro depth c _ brackets' hstate hstep
  have hopener : opener = '<' ∨ opener ∈ ['(', '[', '{'] := by
    rcases hpair.cases with ⟨rfl, -⟩ | ⟨rfl, -⟩ | ⟨rfl, -⟩ | ⟨rfl, -⟩ <;> decide
  have hcloser : closer = '>' ∧ opener = '<' ∨ IsBracketPair opener closer := by
    rcases hpair.cases with ⟨rfl, rfl⟩ | ⟨rfl, rfl⟩ | ⟨rfl, rfl⟩ | ⟨rfl, rfl⟩ <;> decide
  cases hstep with
  | opens hc =>
    refine .inr (depthOf_cons hpair (fun heq => ?_) hstate)
    subst heq
    rcases hcloser with ⟨rfl, -⟩ | hpair'
    · exact absurd hc (by decide)
    · exact hpair'.closer_ne (by revert hc; simp; rintro (rfl | rfl | rfl) <;> decide) rfl
  | opensAngle _ hc =>
    subst hc
    refine .inr (depthOf_cons hpair (fun heq => ?_) hstate)
    subst heq
    rcases hcloser with ⟨heq, -⟩ | hpair'
    · exact absurd heq (by decide)
    · exact absurd hpair'.closer_mem (by decide)
  | closes hpair' =>
    obtain ⟨inner, base, heq, hopened, hdepth, hcount⟩ := hstate
    have hangle : c ≠ '>' := fun heq => absurd (heq ▸ hpair'.closer_mem) (by decide)
    cases inner with
    | nil =>
      obtain ⟨rfl, rfl⟩ := List.cons.inj heq
      have hc : c = closer := by
        rcases hcloser with ⟨-, rfl⟩ | hpair
        · exact absurd hpair'.opener_mem (by decide)
        · exact ((hpair'.opener_eq_iff hpair).1 rfl)
      subst hc
      refine .inl ((depthBehind_eq_none hpair).2 ⟨rfl, ?_⟩)
      simp only [List.count_nil] at hcount
      omega
    | cons d inner =>
      obtain ⟨rfl, rfl⟩ := List.cons.inj heq
      by_cases hc : c = closer
      · subst hc
        refine depthOf_of_closer hpair hopened hdepth ?_
        rw [List.count_cons] at hcount
        split at hcount <;> omega
      · have hne : c ≠ opener := by
          rintro rfl
          rcases hopener with rfl | hmem
          · exact absurd hpair'.closer_mem (by decide)
          · exact absurd hpair'.closer_mem (by revert hmem; simp; rintro (rfl | rfl | rfl) <;> decide)
        refine .inr (depthOf_of_other hpair hne hc ⟨inner, base, rfl, hopened, hdepth, ?_⟩)
        rwa [List.count_cons_of_ne] at hcount
        rintro rfl
        rcases hcloser with ⟨-, rfl⟩ | hpair
        · exact absurd hpair'.opener_mem (by decide)
        · exact hc ((hpair'.opener_eq_iff hpair).1 rfl)
  | closesAngle _ hc =>
    subst hc
    obtain ⟨inner, base, heq, hopened, hdepth, hcount⟩ := hstate
    cases inner with
    | nil =>
      obtain ⟨rfl, rfl⟩ := List.cons.inj heq
      have hc : closer = '>' := hcloser.elim And.left fun hpair => absurd hpair.opener_mem (by decide)
      subst hc
      refine .inl ((depthBehind_eq_none hpair).2 ⟨rfl, ?_⟩)
      simp only [List.count_nil] at hcount
      omega
    | cons d inner =>
      obtain ⟨rfl, rfl⟩ := List.cons.inj heq
      rcases hcloser with ⟨rfl, rfl⟩ | hpair'
      · refine depthOf_of_closer hpair hopened hdepth ?_
        rw [List.count_cons_self] at hcount
        push_cast at hcount
        omega
      · have hne : '>' ≠ closer := fun heq => absurd (heq ▸ hpair'.closer_mem) (by decide)
        have hne' : '>' ≠ opener := fun heq => absurd (heq ▸ hpair'.opener_mem) (by decide)
        refine .inr (depthOf_of_other hpair hne' hne ⟨inner, base, rfl, hopened, hdepth, ?_⟩)
        rwa [List.count_cons_of_ne] at hcount
        rintro rfl
        exact absurd hpair'.opener_mem (by decide)
  | passes hc hless _ =>
    by_cases heq : c = closer
    · subst heq
      obtain ⟨inner, base, rfl, hopened, hdepth, hcount⟩ := hstate
      exact depthOf_of_closer hpair hopened hdepth (by omega)
    · refine .inr (depthOf_of_other hpair ?_ heq hstate)
      rintro rfl
      rcases hopener with rfl | hmem
      · exact hless (hangle rfl) rfl
      · exact hc (by revert hmem; simp; rintro (rfl | rfl | rfl) <;> decide)

/-- A block ends at a bracket of its kind, with what was open in front of it still open. -/
theorem block_of_closesFrom (hpair : IsScannedPair opener closer) (hangle : opener = '<' → strict = true)
    (hopened : opened.Sublist base) (hclosed : closesFrom strict accepts (opener :: base) .code [opener] text = true) :
    ∃ found before' brackets' rest, opened.Sublist brackets' ∧ closesFrom strict accepts brackets' .code before' rest = true ∧
      ∀ tail, Scan.IsNeutral tail → block opener closer (opener :: text ++ tail) = .ok found (rest ++ tail) := by
  have hstate : DepthOf opener opened 1 (opener :: base) := ⟨[], base, rfl, hopened, by decide, by simp⟩
  cases scans_of_closesFrom (follows_depth hpair hangle) hstate hclosed with
  | @stops depth brackets mode before rest c hlast hstop hmode hclosed hread =>
    obtain ⟨inner, outer, rfl, hopened, -⟩ := hlast
    obtain ⟨rfl, -⟩ := (depthBehind_eq_none hpair).1 hstop
    obtain ⟨brackets', hstep, -, hrest⟩ := exists_of_closesFrom hmode hclosed
    refine ⟨before.reverse ++ [c], c :: before, brackets', rest, ?_, hrest, fun tail htail => ?_⟩
    · exact hstep.sublist_of_cons ((hopened.cons_cons opener).trans (List.sublist_append_right inner _))
    · have hopener : depthBehind opener c 0 opener = some 1 := by rw [depthBehind_eq hpair, if_pos rfl]; rfl
      have hcode : opener ∉ ['\'', '"', '/'] := hpair.opener_plain
      have hrun := hread tail htail
      rw [block, if_pos (by rfl), blockFrom_eq_run, List.cons_append, Scan.run, Scan.Mode.step_code_of_ne hcode]
      dsimp only
      rw [hopener]
      dsimp only
      rw [hrun]
      rfl
  | ends hlast =>
    obtain ⟨inner, outer, hnil, -⟩ := hlast
    simp at hnil

end Block

/-! ### Expressions -/

/-- The brackets that an expression keeps track of, out of those that are open in it: angle brackets do not count inside of
other ones. -/
def tracked (angles : Bool) : List Char → List Char
  | [] => []
  | c :: inner =>
    if c = '<' then if angles && (tracked angles inner).all (· == '<') then '<' :: tracked angles inner else tracked angles inner
    else c :: tracked angles inner

/-- Where angle brackets have to match, an expression knows what is open in it. Where they do not, it may take a comparison
for an angle bracket. -/
inductive Tracks (strict angles : Bool) (inner found : List Char) : Prop
  | strictly (hstrict : strict = true) (hfound : found = tracked angles inner)
  | loosely (extra : Nat) (hstrict : strict = false) (hinner : '<' ∉ inner) (hfound : found = inner ++ List.replicate extra '<')
    (hextra : angles = false → extra = 0)

section Expression

variable {strict angles : Bool} {accepts : Char → Text → Bool} {opened base inner found brackets brackets' : List Char}
  {mode : Scan.Mode} {before text stops : Text} {c : Char} {ends : EndPair}

theorem bracketsBehind_less (angles : Bool) (opened : List Char) :
    bracketsBehind angles opened '<' = some (if angles = true ∧ ∀ d ∈ opened, d = '<' then '<' :: opened else opened) := by
  simp [bracketsBehind]

theorem bracketsBehind_greater (hopened : opened.head? ≠ some '<') (angles : Bool) :
    bracketsBehind angles opened '>' = if angles = true ∧ opened = [] then none else some opened := by
  cases angles with
  | false => rfl
  | true =>
    cases opened with
    | nil => rfl
    | cons d opened =>
      simp only [bracketsBehind, reduceIte, List.cons_ne_nil, and_false]
      split
      · next heq => cases heq
      · next heq => exact absurd (congrArg List.head? heq) hopened
      · rfl

theorem tracked_less (angles : Bool) (inner : List Char) :
    bracketsBehind angles (tracked angles inner) '<' = some (tracked angles ('<' :: inner)) := by
  rw [bracketsBehind_less, tracked, if_pos rfl]
  simp

theorem tracked_cons (hc : c ≠ '<') (angles : Bool) (inner : List Char) : tracked angles (c :: inner) = c :: tracked angles inner :=
  if_neg hc

/-- Angle brackets that count stand outside of all others. -/
theorem tracked_head (hhead : (tracked angles inner).head? = some '<') : ∀ d ∈ tracked angles inner, d = '<' := by
  induction inner with
  | nil => exact List.forall_mem_nil _
  | cons c inner ih =>
    by_cases hc : c = '<'
    · subst hc
      by_cases hall : (angles && (tracked angles inner).all (· == '<')) = true
      · rw [tracked, if_pos rfl, if_pos hall]
        simpa using (Bool.and_eq_true_iff.1 hall).2
      · rw [tracked, if_pos rfl, if_neg hall] at hhead ⊢
        exact ih hhead
    · rw [tracked_cons hc] at hhead
      exact absurd (Option.some.inj hhead) hc

theorem tracked_greater (angles : Bool) (inner : List Char) :
    bracketsBehind angles (tracked angles ('<' :: inner)) '>' = some (tracked angles inner) := by
  rw [tracked, if_pos rfl]
  split
  · next hall =>
    rw [(Bool.and_eq_true_iff.1 hall).1]
    rfl
  · next hall =>
    by_cases hhead : (tracked angles inner).head? = some '<'
    · have hangles : angles = false := by
        refine Bool.eq_false_of_not_eq_true fun hangles => hall (Bool.and_eq_true_iff.2 ⟨hangles, ?_⟩)
        simpa using tracked_head hhead
      rw [hangles]
      rfl
    · rw [bracketsBehind_greater hhead, if_neg]
      rintro ⟨hangles, hnil⟩
      rw [hnil] at hall
      exact hall (Bool.and_eq_true_iff.2 ⟨hangles, rfl⟩)

theorem bracketsBehind_closer_replicate {opener : Char} (hpair : IsBracketPair opener c) (angles : Bool) (n : Nat) :
    bracketsBehind angles (List.replicate n '<') c = none := by
  have hdrop (opener : Char) (hopener : opener ≠ '<') : (List.replicate n '<').dropWhile (· != opener) = [] := by
    rw [List.dropWhile_replicate, if_pos (bne_iff_ne.2 hopener.symm)]
  rcases hpair.cases with ⟨rfl, rfl⟩ | ⟨rfl, rfl⟩ | ⟨rfl, rfl⟩
  · simp only [bracketsBehind, hdrop '(' (by decide)]
  · simp only [bracketsBehind, hdrop '[' (by decide)]
  · simp only [bracketsBehind, hdrop '\x7b' (by decide)]

namespace Tracks

theorem nil (strict angles : Bool) : Tracks strict angles [] [] := by
  cases strict with
  | true => exact .strictly rfl rfl
  | false => exact .loosely 0 rfl List.not_mem_nil rfl fun _ => rfl

theorem opens (hc : c ∈ ['(', '[', '{']) (htracks : Tracks strict angles inner found) :
    bracketsBehind angles found c = some (c :: found) ∧ Tracks strict angles (c :: inner) (c :: found) := by
  have hne : c ≠ '<' := by
    rintro rfl
    revert hc
    decide
  refine ⟨bracketsBehind_opener hc angles found, ?_⟩
  cases htracks with
  | strictly hstrict hfound => exact .strictly hstrict (by rw [tracked_cons hne, hfound])
  | loosely extra hstrict hinner hfound hextra =>
    exact .loosely extra hstrict (List.not_mem_cons_of_ne_of_not_mem hne.symm hinner) (by rw [hfound]; rfl) hextra

theorem closes {opener : Char} (hpair : IsBracketPair opener c) (htracks : Tracks strict angles (opener :: inner) found) :
    ∃ found', bracketsBehind angles found c = some found' ∧ Tracks strict angles inner found' := by
  cases htracks with
  | strictly hstrict hfound =>
    rw [hfound, tracked_cons (hpair.opener_ne (by decide))]
    exact ⟨_, bracketsBehind_closer hpair angles _, .strictly hstrict rfl⟩
  | loosely extra hstrict hinner hfound hextra =>
    rw [hfound]
    exact ⟨_, bracketsBehind_closer hpair angles _, .loosely extra hstrict (List.not_mem_of_not_mem_cons hinner) rfl hextra⟩

/-- A closing bracket closes none of the angle brackets. -/
theorem closes_nil {opener : Char} (hpair : IsBracketPair opener c) (htracks : Tracks strict angles [] found) :
    bracketsBehind angles found c = none := by
  cases htracks with
  | strictly _ hfound =>
    rw [hfound]
    exact bracketsBehind_closer_replicate hpair angles 0
  | loosely extra _ _ hfound _ =>
    rw [hfound]
    exact bracketsBehind_closer_replicate hpair angles _

/-- In a text where angle brackets need not match they may still be taken for brackets. -/
theorem passes_less (hstrict : strict = false) (htracks : Tracks strict angles inner found) :
    ∃ found', bracketsBehind angles found '<' = some found' ∧ Tracks strict angles inner found' := by
  cases htracks with
  | strictly hstrict' => rw [hstrict] at hstrict'; cases hstrict'
  | loosely extra _ hinner hfound hextra =>
    rw [bracketsBehind_less, hfound]
    split
    · next hall =>
      obtain rfl : inner = [] := by
        cases inner with
        | nil => rfl
        | cons d inner => exact absurd (hall.2 d List.mem_cons_self ▸ List.mem_cons_self) hinner
      exact ⟨_, rfl, .loosely (extra + 1) hstrict hinner rfl fun hangles => by rw [hangles] at hall; cases hall.1⟩
    · exact ⟨_, rfl, .loosely extra hstrict hinner rfl hextra⟩

theorem passes_greater (hhead : strict = true → inner.head? ≠ some '<') (htracks : Tracks strict angles inner found) :
    bracketsBehind angles found '>' = none ∨
      ∃ found', bracketsBehind angles found '>' = some found' ∧ Tracks strict angles inner found' := by
  have hbrackets (hfound : found.head? ≠ some '<') : bracketsBehind angles found '>' = none ∨
      ∃ found', bracketsBehind angles found '>' = some found' ∧ Tracks strict angles inner found' := by
    rw [bracketsBehind_greater hfound]
    split
    · exact .inl rfl
    · exact .inr ⟨found, rfl, htracks⟩
  cases htracks with
  | strictly hstrict hfound =>
    refine hbrackets ?_
    cases inner with
    | nil => rw [hfound]; exact nofun
    | cons d inner =>
      have hd : d ≠ '<' := fun heq => hhead hstrict (heq ▸ rfl)
      rw [hfound, tracked_cons hd]
      exact fun heq => hd (Option.some.inj heq)
  | loosely extra hstrict hinner hfound hextra =>
    cases inner with
    | cons d inner =>
      refine hbrackets ?_
      rw [hfound]
      exact fun heq => hinner (Option.some.inj heq ▸ List.mem_cons_self)
    | nil =>
      cases extra with
      | zero =>
        refine hbrackets ?_
        rw [hfound]
        exact nofun
      | succ extra =>
        obtain rfl : angles = true := Bool.eq_true_of_not_eq_false fun hangles => absurd (hextra hangles) (Nat.succ_ne_zero _)
        rw [hfound]
        exact .inr ⟨_, rfl, .loosely extra hstrict hinner rfl fun hangles => by cases hangles⟩

end Tracks

/-- What an expression keeps track of are brackets that it opened itself. -/
def TracksIn (strict angles : Bool) (opened found brackets : List Char) : Prop :=
  ∃ inner base, brackets = inner ++ base ∧ opened.Sublist base ∧ Tracks strict angles inner found

theorem follows_tracks (stops : Text) (hless : angles = false → opened.head? ≠ some '<') :
    Follows strict (openedBehind stops angles) (TracksIn strict angles opened) := by
  rintro found c stack brackets' ⟨inner, base, rfl, hopened, htracks⟩ hstep
  suffices hbehind : bracketsBehind angles found c = none ∨ ∃ found', bracketsBehind angles found c = some found' ∧
      TracksIn strict angles opened found' brackets' by
    rw [openedBehind]
    split
    · exact .inl rfl
    · exact hbehind
  generalize hstack : inner ++ base = stack at hstep
  cases hstep with
  | opens hc =>
    obtain ⟨hbehind, htracks⟩ := htracks.opens hc
    exact .inr ⟨_, hbehind, c :: inner, base, by rw [← hstack]; rfl, hopened, htracks⟩
  | closes hpair =>
    cases inner with
    | nil => exact .inl (htracks.closes_nil hpair)
    | cons d inner =>
      obtain ⟨rfl, rfl⟩ := List.cons.inj hstack
      obtain ⟨found', hbehind, htracks⟩ := htracks.closes hpair
      exact .inr ⟨found', hbehind, inner, base, rfl, hopened, htracks⟩
  | opensAngle hstrict hc =>
    subst hc
    cases htracks with
    | loosely _ hstrict' => rw [hstrict] at hstrict'; cases hstrict'
    | strictly _ hfound =>
      rw [hfound]
      exact .inr ⟨_, tracked_less angles inner, '<' :: inner, base, by rw [← hstack]; rfl, hopened, .strictly hstrict rfl⟩
  | closesAngle hstrict hc =>
    subst hc
    cases htracks with
    | loosely _ hstrict' => rw [hstrict] at hstrict'; cases hstrict'
    | strictly _ hfound =>
      rw [hfound]
      cases inner with
      | cons d inner =>
        obtain ⟨rfl, rfl⟩ := List.cons.inj hstack
        exact .inr ⟨_, tracked_greater angles inner, inner, base, rfl, hopened, .strictly hstrict rfl⟩
      | nil =>
        -- A greater sign that closes an angle bracket in front of the expression is part of it where they compare.
        cases angles with
        | true => exact .inl rfl
        | false =>
          subst hstack
          refine .inr ⟨[], rfl, [], brackets', rfl, ?_, .strictly hstrict rfl⟩
          cases hopened with
          | cons _ hsub => exact hsub
          | cons_cons _ _ => exact absurd rfl (hless rfl)
  | passes hc hless hgreater =>
    subst hstack
    by_cases hlt : c = '<'
    · subst hlt
      have hstrict : strict = false := Bool.eq_false_of_not_eq_true fun hstrict => hless hstrict rfl
      obtain ⟨found', hbehind, htracks⟩ := htracks.passes_less hstrict
      exact .inr ⟨found', hbehind, inner, base, rfl, hopened, htracks⟩
    by_cases hgt : c = '>'
    · subst hgt
      have hhead (hstrict : strict = true) : inner.head? ≠ some '<' := by
        have hhead := hgreater hstrict rfl
        cases inner with
        | nil =>
          intro hnil
          cases hnil
        | cons d inner => exact hhead
      refine (htracks.passes_greater hhead).imp_right ?_
      rintro ⟨found', hbehind, htracks⟩
      exact ⟨found', hbehind, inner, base, rfl, hopened, htracks⟩
    · have hbehind : bracketsBehind angles found c = some found := bracketsBehind_of_ne (by simp_all) angles found
      exact .inr ⟨found, hbehind, inner, base, rfl, hopened, htracks⟩

/-- An expression ends in front of a stop, in front of the bracket that closes what is open, or at the end. -/
theorem expressionFrom_of_closesFrom (hopened : opened.Sublist base) (hless : angles = false → opened.head? ≠ some '<')
    (hloose : strict = true ∨ angles = false ∨ opened ≠ []) (hfeed : isStop stops '\n' = false)
    (hends : opened = [] → ends.EndDeclarator ∧ isStop stops ',' = true)
    (hclosed : closesFrom strict accepts base .code [] text = true) :
    ∃ taken before' brackets' rest, opened.Sublist brackets' ∧ closesFrom strict accepts brackets' .code before' rest = true ∧
      ∀ tail, ends.IsTail tail → expressionFrom stops angles [] .code [] (text ++ tail) = (taken, rest ++ tail) := by
  have hstate : TracksIn strict angles opened [] base := ⟨[], base, rfl, hopened, .nil strict angles⟩
  cases scans_of_closesFrom (follows_tracks stops hless) hstate hclosed with
  | @stops found brackets mode before rest c hlast hstop hmode hclosed hread =>
    obtain ⟨inner, outer, rfl, hopened, -⟩ := hlast
    have hc : c ≠ '\n' := by
      rintro rfl
      rw [openedBehind, hfeed, bracketsBehind_of_ne (by decide)] at hstop
      simp at hstop
    obtain rfl := Scan.Mode.eq_code_of_step hmode hc
    refine ⟨before.reverse, before, inner ++ outer, c :: rest, hopened.trans (List.sublist_append_right inner outer), hclosed, ?_⟩
    intro tail htail
    rw [expressionFrom_eq_run, hread tail htail.isEnd.isNeutral]
  | @ends found hlast hread =>
    obtain ⟨inner, outer, hnil, hopened, htracks⟩ := hlast
    obtain ⟨rfl, rfl⟩ := List.append_eq_nil_iff.1 hnil.symm
    obtain rfl := List.sublist_nil.1 hopened
    obtain rfl : found = [] := by
      cases htracks with
      | strictly _ hfound => exact hfound
      | loosely extra hstrict _ hfound hextra =>
        rcases hloose with hstrict' | hangles | hne
        · rw [hstrict] at hstrict'
          cases hstrict'
        · rw [hfound, hextra hangles]
          rfl
        · exact absurd rfl hne
    refine ⟨text, text.reverse, [], [], List.nil_sublist _, rfl, fun tail htail => ?_⟩
    obtain ⟨hends, hcomma⟩ := hends rfl
    have hneutral := htail.isEnd.isNeutral
    obtain ⟨c, rest, rfl, hc⟩ := htail.exists_cons
    have hmem : c ∈ [';', ',', '}'] := hends c hc
    have hcode : c ∉ ['\'', '"', '/'] := by
      revert hmem
      simp
      rintro (rfl | rfl | rfl) <;> decide
    have hstop : openedBehind stops angles [] c = none := by
      rw [openedBehind]
      simp only [List.mem_cons, List.not_mem_nil, or_false] at hmem
      rcases hmem with rfl | rfl | rfl
      · rfl
      · rw [hcomma]
        rfl
      · split
        · rfl
        · exact bracketsBehind_closer_replicate (show IsBracketPair '{' '}' by decide) angles 0
    rw [expressionFrom_eq_run, hread _ hneutral, Scan.run_of_stop (Scan.isCode_of_ne hcode rest) hstop, List.append_nil,
      List.reverse_reverse]
    rfl

end Expression

end HeaderOutline
