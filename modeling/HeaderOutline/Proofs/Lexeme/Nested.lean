import HeaderOutline.Proofs.Lexeme.Closed
import HeaderOutline.Proofs.Lexeme.Cut
import HeaderOutline.Proofs.Lexeme.Depth
import HeaderOutline.Proofs.Text.Blank
/-!
# Well-nested blocks

In a well-nested block the brackets match, those in literals and comments left out, and all literals and comments end. Both
scans take such a block as one unit: the scan for a block ends with it, and the scan of an expression goes on behind it
as if it began there. The exception is a stop character that is the opening bracket itself, in front of which an expression ends.
-/

namespace HeaderOutline

open HeaderOutline.Scan

variable {opener closer : Char} {stops text rest code : Text} {angles : Bool} {opened : List Char} {depth : Int}

/-- Code in which the brackets match. Angle brackets are none, since they compare. -/
inductive Matched : Text → Prop
  | nil : Matched []
  | other {c : Char} (hc : c ∉ ['(', '[', '{', ')', ']', '}']) : Matched [c]
  | append {front back : Text} (hfront : Matched front) (hback : Matched back) : Matched (front ++ back)
  | block {opener closer : Char} {code : Text} (hpair : IsBracketPair opener closer) (hcode : Matched code) :
    Matched (opener :: code ++ [closer])

/-- A text that begins with `opener` and ends with the `closer` that matches it. What is in between falls into code, the
brackets of which match, and whole literals and comments. -/
def IsBlock (opener closer : Char) (text : Text) : Prop :=
  IsBracketPair opener closer ∧ ∃ content code, text = opener :: content ++ [closer] ∧ Walks [closer] [opener] content code ∧ Matched code

/-! ### Folds over matching brackets -/

/-- A scan that is not changed by what stands between two brackets, and is changed back by the second one. -/
theorem foldlM_bracketed {σ : Type} {step : σ → Char → Option σ} {outside inside : σ} (hopens : step outside opener = some inside)
    (hcode : code.foldlM step inside = some inside) (hcloses : step inside closer = some outside) :
    (opener :: code ++ [closer]).foldlM step outside = some outside := by
  rw [List.cons_append, List.foldlM_cons, hopens]
  show (code ++ [closer]).foldlM step inside = some outside
  rw [List.foldlM_append, hcode]
  show [closer].foldlM step inside = some outside
  rw [List.foldlM_cons, hcloses]
  rfl

/-- What is open stays open. The innermost open bracket is no angle bracket, so that angle brackets do not count. -/
theorem opened_of_matched (hcode : Matched code) (stops : Text) (angles : Bool) (hopened : opened ≠ [])
    (hangle : opened.head? ≠ some '<') :
    code.foldlM (openedBehind stops angles) opened = some opened := by
  have hgoes {opened : List Char} (hne : opened ≠ []) (c : Char) : openedBehind stops angles opened c = bracketsBehind angles opened c := by
    have hempty : opened.isEmpty = false := by simpa using hne
    rw [openedBehind, hempty, Bool.false_and, if_neg Bool.false_ne_true]
  induction hcode generalizing opened with
  | nil => rfl
  | @other c hc =>
    obtain ⟨d, outer, rfl⟩ := List.exists_cons_of_ne_nil hopened
    have hd : d ≠ '<' := fun heq => hangle (congrArg some heq)
    have hbehind : bracketsBehind angles (d :: outer) c = some (d :: outer) := by
      by_cases hless : c = '<'
      · rw [hless, bracketsBehind_less, if_neg]
        rintro ⟨-, hall⟩
        exact hd (hall d List.mem_cons_self)
      by_cases hgreater : c = '>'
      · rw [hgreater, bracketsBehind_greater hangle, if_neg fun hnil => hopened hnil.2]
      · apply bracketsBehind_of_ne
        simp_all
    rw [List.foldlM_cons, hgoes hopened, hbehind]
    rfl
  | append _ _ ihfront ihback =>
    rw [List.foldlM_append, ihfront hopened hangle]
    exact ihback hopened hangle
  | @block opener closer code hpair _ ih =>
    have hinner : (opener :: opened).head? ≠ some '<' := fun hhead => hpair.opener_ne (by decide) (Option.some.inj hhead)
    refine foldlM_bracketed ?_ (ih (List.cons_ne_nil opener opened) hinner) ?_
    · rw [hgoes hopened, bracketsBehind_opener hpair.opener_mem]
    · rw [hgoes (List.cons_ne_nil _ _), bracketsBehind_closer hpair]

/-- The depth of a block is the same behind matching brackets. -/
theorem depth_of_matched (hpair : IsBracketPair opener closer) (hcode : Matched code) (hdepth : 1 ≤ depth) :
    code.foldlM (depthBehind opener closer) depth = some depth := by
  induction hcode generalizing depth with
  | nil => rfl
  | @other c hc =>
    have hopener : opener ≠ c := hpair.opener_ne fun hmem => hc (List.mem_append_left [')', ']', '}'] hmem)
    have hcloser : closer ≠ c := hpair.closer_ne fun hmem => hc (List.mem_append_right ['(', '[', '{'] hmem)
    rw [List.foldlM_cons, depthBehind_eq hpair.scanned, if_neg hopener.symm, if_neg hcloser.symm]
    rfl
  | append _ _ ihfront ihback =>
    rw [List.foldlM_append, ihfront hdepth]
    exact ihback hdepth
  | @block opener' closer' code hpair' _ ih =>
    by_cases hsame : opener' = opener
    · subst hsame
      obtain rfl := (hpair.opener_eq_iff hpair').1 rfl
      refine foldlM_bracketed ?_ (ih (by omega : 1 ≤ depth + 1)) ?_
      · rw [depthBehind_eq hpair.scanned, if_pos rfl]
      · rw [depthBehind_eq hpair.scanned, if_neg hpair.scanned.ne, if_pos rfl, if_neg (by omega), Int.add_sub_cancel]
    · -- Brackets of another kind are not counted.
      have hother : closer' ≠ closer := fun heq => hsame ((hpair'.opener_eq_iff hpair).2 heq)
      refine foldlM_bracketed ?_ (ih hdepth) ?_
      · rw [depthBehind_eq hpair.scanned, if_neg hsame, if_neg (hpair'.opener_ne_closer hpair)]
      · rw [depthBehind_eq hpair.scanned, if_neg (hpair.opener_ne_closer hpair').symm, if_neg hother]

/-! ### Blocks in front of any text -/

/-- Of the text behind a block nothing is seen, so that it falls into the same code in front of any text. -/
theorem IsBlock.exists_walks (htext : IsBlock opener closer text) (rest : Text) :
    ∃ content code, text = opener :: content ++ [closer] ∧ Walks (closer :: rest) [] (opener :: content) (opener :: code) ∧
      Matched code := by
  obtain ⟨hpair, content, code, rfl, hcontent, hcode⟩ := htext
  have hhead : [closer].head? = (closer :: rest).head? := rfl
  exact ⟨content, code, rfl, .code (isCode_of_ne hpair.scanned.opener_plain _) (hcontent.of_head? hhead), hcode⟩

theorem block_of_isBlock (htext : IsBlock opener closer text) (rest : Text) : block opener closer (text ++ rest) = .ok text rest := by
  have hpair := htext.1.scanned
  obtain ⟨content, code, rfl, hwalks, hcode⟩ := htext.exists_walks rest
  have hopener : depthBehind opener closer 0 opener = some 1 := by
    rw [depthBehind_eq hpair, if_pos rfl]
    rfl
  have hdepth : (opener :: code).foldlM (depthBehind opener closer) 0 = some 1 := by
    rw [List.foldlM_cons, hopener]
    exact depth_of_matched htext.1 hcode (by omega)
  rw [List.append_assoc, List.singleton_append]
  exact block_of_walks hpair rfl hwalks hdepth

/-- An opening bracket that is no stop opens. -/
theorem openedBehind_opener (hpair : IsBracketPair opener closer) (hstops : opener ∉ stops) (angles : Bool) :
    openedBehind stops angles [] opener = some [opener] := by
  have hascii : ∀ c ∈ ['(', '[', '{'], c.toNat < 128 ∧ c ≠ ';' := by decide
  obtain ⟨hascii, hsemicolon⟩ := hascii opener hpair.opener_mem
  have hstop : isStop stops opener = false := by
    rw [isStop_ascii hascii]
    simpa using hstops
  rw [openedBehind, hstop, bracketsBehind_opener hpair.opener_mem]
  simp [hsemicolon]

/-- The scan of an expression goes on behind a block as it goes at the beginning of what stands there. -/
theorem expressionFrom_of_isBlock (htext : IsBlock opener closer text) (hstops : opener ∉ stops) (angles : Bool) (rest : Text) :
    expressionFrom stops angles [] .code [] (text ++ rest) =
      (text ++ (expressionFrom stops angles [] .code [] rest).1, (expressionFrom stops angles [] .code [] rest).2) := by
  have hpair := htext.1
  obtain ⟨content, code, rfl, hwalks, hcode⟩ := htext.exists_walks rest
  have hangle : [opener].head? ≠ some '<' := fun hhead => hpair.opener_ne (by decide) (Option.some.inj hhead)
  have hopened : (opener :: code).foldlM (openedBehind stops angles) [] = some [opener] := by
    rw [List.foldlM_cons, openedBehind_opener hpair hstops]
    exact opened_of_matched hcode stops angles (List.cons_ne_nil _ _) hangle
  have hclosed : openedBehind stops angles [opener] closer = some [] := by
    rw [openedBehind, bracketsBehind_closer hpair]
    rfl
  -- The closing bracket belongs to no number, so that behind it a mark between digits has none in front of it.
  have hnumber : isNumberChar closer = false := by
    have hclosers : ∀ c ∈ [')', ']', '}'], isNumberChar c = false := by decide
    exact hclosers closer hpair.closer_mem
  have hbefore : (closer :: (opener :: content).reverse ++ []).takeWhile isNumberChar = [].takeWhile isNumberChar := by
    rw [List.cons_append, List.takeWhile_cons, hnumber]
    rfl
  obtain ⟨state, taken, left, (hbehind : run (openedBehind stops angles) _ _ _ _ = _), hfresh⟩ := run_congr_before hbefore [] .code rest
  rw [expressionFrom_eq_run, expressionFrom_eq_run, List.append_assoc, List.singleton_append, run_walks hwalks hopened,
    run_of_code (isCode_of_ne hpair.scanned.closer_plain rest) hclosed, hfresh]
  show (run (openedBehind stops angles) [] .code (closer :: (opener :: content).reverse ++ []) rest).2 = _
  rw [hbehind]
  simp

/-- The scan for a block takes a well-nested block, and that block only. The scan of an expression ends behind the block where
it ends on what stands there, for every set of stop characters in which the opening bracket is not. -/
theorem block_oneUnit (htext : IsBlock opener closer text) (rest : Text) :
    block opener closer (text ++ rest) = .ok text rest ∧
      ∀ stops, opener ∉ stops → ∀ angles, ∃ taken left,
        expressionFrom stops angles [] .code [] rest = (taken, left) ∧
        expressionFrom stops angles [] .code [] (text ++ rest) = (text ++ taken, left) ∧
        expression stops angles (text ++ rest) = .ok (Text.trim (text ++ taken)) left := by
  refine ⟨block_of_isBlock htext rest, fun stops hstops angles => ?_⟩
  have hscan := expressionFrom_of_isBlock htext hstops angles rest
  refine ⟨_, _, rfl, hscan, ?_⟩
  rw [expression_eq, hscan, if_neg]
  rw [Text.trim_eq_nil_iff]
  -- The opening bracket is left over by the trimming.
  intro hblank
  obtain ⟨hpair, content, _, rfl, -⟩ := htext
  have hopeners : ∀ c ∈ ['(', '[', '{'], Text.isBlank c = false := by decide
  have hopener := hblank opener (by simp)
  rw [hopeners opener hpair.opener_mem] at hopener
  cases hopener

/-- A mark between digits, a comparison, and brackets and stop characters in a literal and in a comment. -/
theorem block_oneUnit_literals : IsBlock '(' ')' "(1'0<[\",)\"]/*(*/)".toList ∧ '(' ∉ [','] ∧
    block '(' ')' "(1'0<[\",)\"]/*(*/)'0', x".toList = .ok "(1'0<[\",)\"]/*(*/)".toList "'0', x".toList ∧
    expression [','] true "(1'0<[\",)\"]/*(*/)'0', x".toList = .ok "(1'0<[\",)\"]/*(*/)'0'".toList ", x".toList := by
  have hcode : Matched (['1'] ++ (['0'] ++ (['<'] ++ ('[' :: [] ++ [']'])))) :=
    .append (.other (by decide)) (.append (.other (by decide)) (.append (.other (by decide)) (.block (by decide) .nil)))
  have hstring : Quoted '"' true [',', ')', '"'] := .plain (by decide) (by decide) (.plain (by decide) (by decide) .close)
  have hcomment : Commented true ['(', '*', '/'] := .plain (by decide) .close
  have hcontent : Walks [')'] ['('] ('1' :: (['\''] ++ '0' :: '<' :: '[' :: (['"', ',', ')', '"'] ++ ']' :: (['/', '*', '(', '*', '/'] ++ []))))
      ['1', '0', '<', '[', ']'] := by
    apply Walks.code (isCode_of_ne (by decide) _)
    apply Walks.skip (.separator (by decide))
    apply Walks.code (isCode_of_ne (by decide) _)
    apply Walks.code (isCode_of_ne (by decide) _)
    apply Walks.code (isCode_of_ne (by decide) _)
    apply Walks.skip (.string hstring (by simp))
    apply Walks.code (isCode_of_ne (by decide) _)
    exact Walks.skip (.blockComment hcomment (by simp)) .nil
  have htext : IsBlock '(' ')' "(1'0<[\",)\"]/*(*/)".toList := ⟨by decide, _, _, rfl, hcontent, hcode⟩
  have hstops : '(' ∉ [','] := by decide
  obtain ⟨hblock, hexpression⟩ := block_oneUnit htext "'0', x".toList
  obtain ⟨taken, left, hfresh, -, hread⟩ := hexpression [','] hstops true
  have htaken : expressionFrom [','] true [] .code [] "'0', x".toList = ("'0'".toList, ", x".toList) := by cbv
  obtain ⟨rfl, rfl⟩ := Prod.mk.inj (hfresh.symm.trans htaken)
  exact ⟨htext, hstops, hblock, hread⟩

/-- An expression ends in front of an opening bracket that is a stop character. -/
theorem block_oneUnit_stop : IsBlock '(' ')' "()".toList ∧ expressionFrom ['('] false [] .code [] [] = ([], []) ∧
    expressionFrom ['('] false [] .code [] "()".toList = ([], "()".toList) ∧
    expression ['('] false "()".toList = .mismatch [⟨"()".toList, .rule .until⟩] := by
  have htext : IsBlock '(' ')' "()".toList := ⟨by decide, [], [], rfl, .nil, .nil⟩
  exact ⟨htext, rfl, by cbv, by cbv⟩

end HeaderOutline
