import HeaderOutline.Proofs.Lexeme.Depth
/-!
# Blocks are the shortest level texts

A text is level if it opens as many brackets as it closes, those in literals and comments left out. A block is the shortest
level text at the front of the input, if the input begins with the opening bracket, and there is none otherwise. `Visits` lists
the places that the scan comes to, so that the depth can be followed: it never sinks below zero. `block_shortest` says all of
this of every input and every pair of brackets.
-/

namespace HeaderOutline

open HeaderOutline.Scan

variable {opener closer : Char} {input text rest shorter behind code : Text} {depth : Int} {mode : Scan.Mode} {before : Text}

/-! ### Level texts -/

/-- The characters of the text that are no part of a literal or a comment, where the text stands between `before` and `rest`.
The text may end inside a literal or a comment. -/
def CodeOf (before text rest code : Text) : Prop :=
  ∃ front inner, text = front ++ inner ∧ Walks (inner ++ rest) before front code ∧
    (inner = [] ∨ ∃ more tail, rest = more ++ tail ∧ Skips (front.reverse ++ before) (inner ++ more) tail)

/-- Outside of literals and comments, the text opens as many brackets as it closes. -/
def IsLevel (opener closer : Char) (text rest : Text) : Prop :=
  ∃ code, CodeOf [] text rest code ∧ code.count opener = code.count closer

/-- The shortest front of the input that is level, the empty one left out. -/
structure IsShortestLevel (opener closer : Char) (input text rest : Text) : Prop where
  append : text ++ rest = input
  ne_nil : text ≠ []
  level : IsLevel opener closer text rest
  shortest : ∀ shorter behind, shorter ++ behind = input → shorter ≠ [] → IsLevel opener closer shorter behind →
    text.length ≤ shorter.length

/-- Each front of an input has its code, wherever it ends. -/
theorem exists_codeOf (before text rest : Text) : ∃ code, CodeOf before text rest code := by
  induction hlength : text.length using Nat.strongRecOn generalizing before text with
  | ind n ih =>
    cases text with
    | nil => exact ⟨[], [], [], rfl, .nil, .inl rfl⟩
    | cons c text =>
      rcases exists_skips before c (text ++ rest) with hc | ⟨piece, tail, heq, hpiece⟩
      · obtain ⟨code, front, inner, rfl, hfront, hinner⟩ := ih text.length (by simp [← hlength]) (c :: before) text rfl
        rw [List.append_assoc] at hc
        refine ⟨c :: code, c :: front, inner, rfl, .code hc hfront, ?_⟩
        simpa using hinner
      · rw [← List.cons_append] at heq
        rcases List.append_eq_append_iff.1 heq with ⟨more, rfl, rfl⟩ | ⟨left, htext, rfl⟩
        · exact ⟨[], [], c :: text, rfl, .nil, .inr ⟨more, tail, rfl, hpiece⟩⟩
        · have hshorter : left.length < n := by
            have hpositive := List.length_pos_iff.2 hpiece.ne_nil
            rw [← hlength, htext, List.length_append]
            omega
          obtain ⟨code, front, inner, rfl, hfront, hinner⟩ := ih left.length hshorter (piece.reverse ++ before) left rfl
          rw [List.append_assoc] at hpiece
          refine ⟨code, piece ++ front, inner, by rw [htext, List.append_assoc], .skip hpiece hfront, ?_⟩
          simpa using hinner

theorem codeOf_of_walks (htext : Walks rest before text code) : CodeOf before text rest code :=
  ⟨text, [], (List.append_nil text).symm, htext, .inl rfl⟩

/-- Code at the front is no part of a skipped piece. -/
theorem head?_ne_of_skips {piece : Text} {c : Char} (hc : c ∉ ['\'', '"', '/']) (hpiece : Skips before piece rest) :
    piece.head? ≠ some c := by
  intro hhead
  cases hpiece <;> cases hhead <;> simp at hc

/-- A front of an input that begins with code has some of it. -/
theorem CodeOf.exists_cons {c : Char} (htext : CodeOf before text rest code) (hc : c ∉ ['\'', '"', '/'])
    (hhead : text.head? = some c) : ∃ tail, code = c :: tail := by
  obtain ⟨front, inner, rfl, hfront, hinner⟩ := htext
  cases hfront with
  | nil =>
    rcases hinner with rfl | ⟨more, tail, -, hpiece⟩
    · cases hhead
    · have hpiece_head : (inner ++ more).head? = some c := by rw [List.head?_append, ← List.nil_append inner, hhead, Option.some_or]
      exact absurd hpiece_head (head?_ne_of_skips hc hpiece)
  | code => exact ⟨_, by cases hhead; rfl⟩
  | skip hpiece =>
    rw [List.append_assoc, List.head?_append_of_ne_nil _ hpiece.ne_nil] at hhead
    exact absurd hhead (head?_ne_of_skips hc hpiece)

/-! ### The end of the block -/

/-- A block begins and ends with its brackets, and in between the depth stays above zero. -/
theorem exists_of_block (hpair : IsScannedPair opener closer) (hblock : block opener closer input = .ok text rest) :
    ∃ content code, text = opener :: content ++ [closer] ∧ text ++ rest = input ∧
      Walks (closer :: rest) [] (opener :: content) code ∧ code.foldlM (depthBehind opener closer) 0 = some 1 := by
  obtain ⟨taken, left, code, depth, rfl, htaken, hdepth, hrun, hstop⟩ := exists_walks (depthBehind opener closer) 0 [] input
  rw [block, blockFrom_eq_run, hrun] at hblock
  split at hblock
  · next hhead =>
    cases left with
    | nil => cases hblock
    | cons c left =>
      cases hblock
      obtain ⟨-, hnone⟩ := hstop c _ rfl
      obtain ⟨rfl, rfl⟩ := (depthBehind_eq_none hpair).1 hnone
      cases taken with
      | nil =>
        obtain rfl := htaken.eq_nil
        cases hdepth
      | cons d content =>
        cases hhead
        exact ⟨content, code, rfl, by simp, htaken, hdepth⟩
  · cases hblock

/-- A level text at the front of an input is no shorter than the block there. -/
theorem exists_block_of_isLevel (hpair : IsScannedPair opener closer) (hhead : text.head? = some opener)
    (hlevel : IsLevel opener closer text rest) :
    ∃ found left, block opener closer (text ++ rest) = .ok found left ∧ found.length ≤ text.length := by
  obtain ⟨code, hcode, hcount⟩ := hlevel
  obtain ⟨tail, rfl⟩ := hcode.exists_cons hpair.opener_plain hhead
  obtain ⟨front, inner, rfl, hfront, -⟩ := hcode
  cases hdepth : (opener :: tail).foldlM (depthBehind opener closer) 0 with
  | some depth =>
    -- The depth is at least one behind the first bracket, and the difference of the two counts at the end.
    have hdifference := depth_eq_of_foldlM hpair hdepth
    rw [List.foldlM_cons, depthBehind_eq hpair, if_pos rfl] at hdepth
    have hpositive := one_le_of_foldlM hpair (by decide) hdepth
    omega
  | none =>
    obtain ⟨before, c, behind, between, hsplit, hbefore, hstop⟩ := exists_of_foldlM_eq_none hdepth
    obtain ⟨rfl, rfl⟩ := (depthBehind_eq_none hpair).1 hstop
    rw [hsplit] at hfront
    obtain ⟨left, right, rfl, hleft, -, -⟩ := hfront.split
    have hleft_head : left.head? = some opener := by
      cases left with
      | nil =>
        obtain rfl := hleft.eq_nil
        cases hbefore
      | cons d left => simpa using hhead
    refine ⟨left ++ [c], right ++ (inner ++ rest), ?_, by simp⟩
    have hblock := block_of_walks hpair hleft_head hleft hbefore
    simpa using hblock

theorem block_eq_ok_or (opener closer : Char) (input : Text) :
    (∃ text rest, block opener closer input = .ok text rest) ∨ input.head? ≠ some opener ∧
      block opener closer input = .mismatch [⟨input, .char opener⟩] ∨ input.head? = some opener ∧
        block opener closer input = .mismatch [⟨[], .char (Char.ofNat (bracketByte closer))⟩] := by
  rw [block]
  split
  · next hhead =>
    cases blockFrom (bracketByte opener) (bracketByte closer) 0 .code [] input with
    | none => exact .inr (.inr ⟨hhead, rfl⟩)
    | some found => exact .inl ⟨found.1, found.2, rfl⟩
  · next hhead => exact .inr (.inl ⟨hhead, rfl⟩)

theorem isShortestLevel_of_block (hpair : IsScannedPair opener closer) (hblock : block opener closer input = .ok text rest) :
    IsShortestLevel opener closer input text rest := by
  obtain ⟨content, code, rfl, rfl, hcontent, hdepth⟩ := exists_of_block hpair hblock
  refine ⟨rfl, by simp, ⟨code ++ [closer], ?code, ?count⟩, ?shortest⟩
  case code =>
    have hcloser : Walks rest ((opener :: content).reverse ++ []) [closer] [closer] :=
      .code (isCode_of_ne hpair.closer_plain _) .nil
    exact codeOf_of_walks (hcontent.append hcloser)
  case count =>
    have hdifference := depth_eq_of_foldlM hpair hdepth
    rw [List.count_append, List.count_append, List.count_singleton_self, List.count_singleton, if_neg (by simp [hpair.ne])]
    omega
  case shortest =>
    intro shorter behind heq hne hlevel
    have hhead : shorter.head? = some opener := by
      have hinput := congrArg List.head? heq
      rwa [List.head?_append_of_ne_nil _ hne] at hinput
    obtain ⟨found, left, hfound, hlength⟩ := exists_block_of_isLevel hpair hhead hlevel
    rw [heq, hblock] at hfound
    cases hfound
    exact hlength

/-! ### The depth -/

/-- The places that the scan of a block comes to, with the depth and the mode there. -/
inductive Visits (opener closer : Char) (input : Text) : (depth : Int) → (mode : Scan.Mode) → (before rest : Text) → Prop
  | start (hhead : input.head? = some opener) : Visits opener closer input 0 .code [] input
  | skip {depth : Int} {mode mode' : Scan.Mode} {before rest : Text} {c : Char} (hplace : Visits opener closer input depth mode before (c :: rest))
    (hstep : mode.step before c rest = some mode') : Visits opener closer input depth mode' (c :: before) rest
  | count {depth depth' : Int} {mode : Scan.Mode} {before rest : Text} {c : Char}
    (hplace : Visits opener closer input depth mode before (c :: rest)) (hstep : mode.step before c rest = none)
    (hcount : countBrackets (bracketByte opener) (bracketByte closer) depth (String.utf8EncodeChar c) = (depth', false)) :
    Visits opener closer input depth' .code (c :: before) rest

/-- The scan stays in the input, and behind the first bracket the depth is at least one. -/
theorem Visits.invariant (hpair : IsScannedPair opener closer) (hplace : Visits opener closer input depth mode before rest) :
    before.reverse ++ rest = input ∧
      (before = [] ∧ depth = 0 ∧ mode = .code ∧ input.head? = some opener ∨ before ≠ [] ∧ 1 ≤ depth) := by
  induction hplace with
  | start hhead => exact ⟨rfl, .inl ⟨rfl, rfl, rfl, hhead⟩⟩
  | @skip depth mode mode' before rest c _ hstep ih =>
    obtain ⟨hinput, hdepth⟩ := ih
    refine ⟨by simpa using hinput, .inr ⟨List.cons_ne_nil _ _, ?_⟩⟩
    rcases hdepth with ⟨rfl, -, rfl, hhead⟩ | ⟨-, hdepth⟩
    · -- The first bracket is code.
      rw [← hinput] at hhead
      obtain rfl : c = opener := by simpa using hhead
      rw [(isCode_of_ne hpair.opener_plain rest).step] at hstep
      cases hstep
    · exact hdepth
  | @count depth depth' mode before rest c _ hstep hcount ih =>
    obtain ⟨hinput, hdepth⟩ := ih
    refine ⟨by simpa using hinput, .inr ⟨List.cons_ne_nil _ _, ?_⟩⟩
    have hbehind : depthBehind opener closer depth c = some depth' := by rw [depthBehind, hcount]
    rcases hdepth with ⟨rfl, rfl, -, hhead⟩ | ⟨-, hdepth⟩
    · rw [← hinput] at hhead
      obtain rfl : c = opener := by simpa using hhead
      rw [depthBehind_eq hpair, if_pos rfl] at hbehind
      cases hbehind
      decide
    · exact one_le_of_depthBehind hpair hdepth hbehind

/-! ### Every input -/

/-- An input has a block exactly if it begins with the opening bracket and has a level front. The block is the shortest such
front, stands between its brackets, and what is inside them is what `inside` trims. An input without a block is refused
at its front if it does not begin with the bracket, and otherwise at its end. The depth is never below zero, and no place is outside of
the input. -/
theorem block_shortest (hpair : IsScannedPair opener closer) (input : Text) :
    ((∃ text rest, block opener closer input = .ok text rest) ↔
      input.head? = some opener ∧ ∃ text rest, text ++ rest = input ∧ text ≠ [] ∧ IsLevel opener closer text rest) ∧
    (∀ text rest, block opener closer input = .ok text rest → IsShortestLevel opener closer input text rest ∧
      ∃ content, text = opener :: content ++ [closer] ∧ inside text = Text.trim content) ∧
    ((∀ text rest, block opener closer input ≠ .ok text rest) → block opener closer input =
      if input.head? = some opener then .mismatch [⟨[], .char closer⟩] else .mismatch [⟨input, .char opener⟩]) ∧
    (∀ depth mode before rest, Visits opener closer input depth mode before rest →
      0 ≤ depth ∧ (before ≠ [] → 1 ≤ depth) ∧ before.reverse ++ rest = input) ∧
    ∀ text rest, ∃ code, CodeOf [] text rest code := by
  refine ⟨⟨?front, ?found⟩, ?block, ?refused, ?visits, exists_codeOf []⟩
  case front =>
    rintro ⟨text, rest, hblock⟩
    have hshortest := isShortestLevel_of_block hpair hblock
    obtain ⟨content, code, rfl, rfl, -⟩ := exists_of_block hpair hblock
    exact ⟨rfl, _, rest, rfl, hshortest.ne_nil, hshortest.level⟩
  case found =>
    rintro ⟨hhead, text, rest, rfl, hne, hlevel⟩
    rw [List.head?_append_of_ne_nil _ hne] at hhead
    obtain ⟨found, left, hblock, -⟩ := exists_block_of_isLevel hpair hhead hlevel
    exact ⟨found, left, hblock⟩
  case block =>
    intro text rest hblock
    refine ⟨isShortestLevel_of_block hpair hblock, ?_⟩
    obtain ⟨content, code, rfl, -, -⟩ := exists_of_block hpair hblock
    refine ⟨content, rfl, ?_⟩
    rw [inside, List.cons_append, List.drop_succ_cons, List.drop_zero, List.dropLast_concat]
  case refused =>
    intro hnone
    rcases block_eq_ok_or opener closer input with ⟨text, rest, hblock⟩ | ⟨hhead, hblock⟩ | ⟨hhead, hblock⟩
    · exact absurd hblock (hnone text rest)
    · rw [if_neg hhead, hblock]
    · rw [if_pos hhead, hblock, hpair.ofNat_bracketByte]
  case visits =>
    intro depth mode before rest hplace
    obtain ⟨hinput, hdepth⟩ := hplace.invariant hpair
    rcases hdepth with ⟨rfl, rfl, -, -⟩ | ⟨-, hdepth⟩
    · exact ⟨Int.le_refl 0, fun hne => absurd rfl hne, hinput⟩
    · exact ⟨by omega, fun _ => hdepth, hinput⟩

/-- A brace in a string, an escaped backslash in front of its quote, a brace in a comment, and one behind the block. -/
theorem block_shortest_skips : IsScannedPair '{' '}' ∧
    block '{' '}' "\x7b \"\x7dé\\\\\" /* \x7d */ \x7b\x7d \x7d\x7d".toList =
      .ok "\x7b \"\x7dé\\\\\" /* \x7d */ \x7b\x7d \x7d".toList "\x7d".toList ∧
    IsShortestLevel '{' '}' "\x7b \"\x7dé\\\\\" /* \x7d */ \x7b\x7d \x7d\x7d".toList
      "\x7b \"\x7dé\\\\\" /* \x7d */ \x7b\x7d \x7d".toList "\x7d".toList := by
  have hpair : IsScannedPair '{' '}' := by decide
  have hblock : block '{' '}' "\x7b \"\x7dé\\\\\" /* \x7d */ \x7b\x7d \x7d\x7d".toList =
      .ok "\x7b \"\x7dé\\\\\" /* \x7d */ \x7b\x7d \x7d".toList "\x7d".toList := by cbv
  exact ⟨hpair, hblock, ((block_shortest hpair _).2.1 _ _ hblock).1⟩

end HeaderOutline
