import HeaderOutline.Proofs.Comment.Leading
import HeaderOutline.Proofs.Parser.InStep
/-!
# Lexemes and the final line feed

The line feed at the end of a text belongs to no word, no literal and no bracketed block. Gaps and expressions may take
it in: a gap has no value, and an expression is trimmed.
-/

namespace HeaderOutline

open HeaderOutline.Parser

variable {keeps : Bool}

/-! ### Words -/

theorem isWordChar_lineFeed : isWordChar '\n' = false := by decide

instance : InStep keeps identifier identifier := by
  refine .of_append (fun {input word rest} _ hok => ?_) fun {input trace} _ hmismatch => ?_
  · unfold identifier at hok
    split at hok
    · next c tail =>
      split at hok
      · next hc =>
        cases hok
        rw [List.cons_append, identifier, if_pos hc, takeWhile_lineFeed isWordChar_lineFeed,
          dropWhile_lineFeed isWordChar_lineFeed]
      · cases hok
    · cases hok
  · unfold identifier at hmismatch
    split at hmismatch
    · next c tail =>
      split at hmismatch
      · cases hmismatch
      · next hc => exact ⟨_, if_neg hc⟩
    · exact ⟨_, rfl⟩

instance {word : String} [Solid [word]] : InStep keeps (keyword word) (keyword word) := by
  have hend : InStep false (satisfy isWordChar) (satisfy isWordChar) := .satisfy isWordChar_lineFeed
  unfold keyword
  infer_instance

instance {word : String} [Solid [word]] : Consuming (keyword word) := by
  unfold keyword
  infer_instance

theorem Parser.Solid.head {word : String} {words : List String} (hwords : Solid (word :: words)) : Solid [word] where
  solid other hother := by
    obtain rfl := List.mem_singleton.1 hother
    exact hwords.solid other List.mem_cons_self

theorem Parser.Solid.tail {word : String} {words : List String} (hwords : Solid (word :: words)) : Solid words where
  solid other hother := hwords.solid other (List.mem_cons_of_mem word hother)

theorem anyKeyword_cons (word next : String) (words : List String) :
    anyKeyword (word :: next :: words) = firstOf (keyword word :: keyword next :: words.map keyword) := rfl

theorem anyKeyword_consuming {words : List String} (hwords : Solid words) : Consuming (anyKeyword words) := by
  induction words with
  | nil => exact inferInstanceAs (Consuming (firstOf []))
  | cons word words ih =>
    have hhead := hwords.head
    have htail : Consuming (firstOf (words.map keyword)) := ih hwords.tail
    exact inferInstanceAs (Consuming (firstOf (keyword word :: words.map keyword)))

theorem anyKeyword_inStep {words : List String} (hwords : Solid words) : InStep keeps (anyKeyword words) (anyKeyword words) := by
  induction words with
  | nil => exact ⟨fun _ => .mismatch⟩
  | cons word words ih =>
    have hhead := hwords.head
    cases words with
    | nil => exact inferInstanceAs (InStep keeps (firstOf [keyword word]) (firstOf [keyword word]))
    | cons next words =>
      have htail : InStep keeps (firstOf (keyword next :: words.map keyword)) (firstOf (keyword next :: words.map keyword)) :=
        ih hwords.tail
      rw [anyKeyword_cons]
      infer_instance

instance {words : List String} [hwords : Solid words] : Consuming (anyKeyword words) := anyKeyword_consuming hwords

instance {words : List String} [hwords : Solid words] : InStep keeps (anyKeyword words) (anyKeyword words) :=
  anyKeyword_inStep hwords

instance : InStep keeps macroName macroName := by
  unfold macroName
  infer_instance

instance : InStep keeps plainName plainName := by
  unfold plainName
  infer_instance

instance : Consuming plainName := by
  unfold plainName
  infer_instance

/-! ### Literals, comments and brackets -/

namespace Scan

theorem head?_lineFeed {c : Char} (hc : c ≠ '\n') (after : Text) : (after ++ ['\n']).head? = some c ↔ after.head? = some c := by
  cases after with
  | nil => simp [Ne.symm hc]
  | cons d after => rfl

/-- To the character in front of it, the line feed says as little as the end of the text. -/
theorem Mode.step_lineFeed (mode : Mode) (before : Text) (c : Char) (after : Text) :
    mode.step before c (after ++ ['\n']) = mode.step before c after :=
  step_append (by rintro d ⟨⟩; decide) mode before c after

end Scan

theorem blockFrom_lineFeed {opener closer : Nat} (hcloser : closer ≠ 10) (depth : Int) (mode : Scan.Mode) (before input : Text) :
    blockFrom opener closer depth mode before (input ++ ['\n']) =
      (blockFrom opener closer depth mode before input).map fun parts => (parts.1, parts.2 ++ ['\n']) := by
  fun_induction blockFrom opener closer depth mode before input with
  | case1 depth mode before =>
    have hcount (depth : Int) : (countBrackets opener closer depth (String.utf8EncodeChar '\n')).2 = false := by
      have hbytes : String.utf8EncodeChar '\n' = [10] := by decide
      rw [hbytes]
      simp only [countBrackets, if_neg (Ne.symm hcloser : (10 : UInt8).toNat ≠ closer)]
      split <;> rfl
    rw [List.nil_append, blockFrom]
    split
    · rfl
    · split
      · next hclosed => exact absurd (hcount depth) (by rw [hclosed]; exact Bool.noConfusion)
      · rfl
  | case2 depth mode before c rest mode' hmode ih =>
    rw [List.cons_append, blockFrom, Scan.Mode.step_lineFeed, hmode]
    exact ih
  | case3 depth mode before c rest hmode depth' hcount =>
    rw [List.cons_append, blockFrom, Scan.Mode.step_lineFeed, hmode]
    dsimp only
    rw [hcount]
    rfl
  | case4 depth mode before c rest hmode depth' hcount ih =>
    rw [List.cons_append, blockFrom, Scan.Mode.step_lineFeed, hmode]
    dsimp only
    rw [hcount]
    exact ih

theorem blockFrom_length_lt {opener closer : Nat} {depth : Int} {mode : Scan.Mode} {before input text rest : Text}
    (hblock : blockFrom opener closer depth mode before input = some (text, rest)) : rest.length < input.length := by
  fun_induction blockFrom opener closer depth mode before input with
  | case1 => cases hblock
  | case2 _ _ _ _ _ _ _ ih => exact Nat.lt_succ_of_lt (ih hblock)
  | case3 =>
    cases hblock
    exact Nat.lt_succ_self _
  | case4 _ _ _ _ _ _ _ _ ih => exact Nat.lt_succ_of_lt (ih hblock)

section Block

variable {opener closer : Char}

theorem block_eq_ok {input text rest : Text} : block opener closer input = .ok text rest ↔
    input.head? = some opener ∧ blockFrom (bracketByte opener) (bracketByte closer) 0 .code [] input = some (text, rest) := by
  unfold block
  split
  · next hhead =>
    split
    · next hblock => simp [hhead, hblock, Prod.ext_iff]
    · next hblock => simp [hhead, hblock]
  · next hhead => simp [hhead]

instance : Consuming (block opener closer) where
  lt hok := blockFrom_length_lt (block_eq_ok.1 hok).2

theorem block_inStep (hopener : opener ≠ '\n') (hcloser : bracketByte closer ≠ 10) :
    InStep keeps (block opener closer) (block opener closer) := by
  have hfeed {input text rest : Text} : block opener closer (input ++ ['\n']) = .ok text rest ↔
      input.head? = some opener ∧
        (blockFrom (bracketByte opener) (bracketByte closer) 0 .code [] input).map (fun parts => (parts.1, parts.2 ++ ['\n'])) =
          some (text, rest) := by
    rw [block_eq_ok, Scan.head?_lineFeed hopener, blockFrom_lineFeed hcloser]
  refine .of_append (fun {input text rest} _ hok => ?_) fun {input trace} _ hmismatch => ?_
  · obtain ⟨hhead, hblock⟩ := block_eq_ok.1 hok
    exact hfeed.2 ⟨hhead, by rw [hblock]; rfl⟩
  · cases houtcome : block opener closer (input ++ ['\n']) with
    | mismatch trace' => exact ⟨trace', houtcome⟩
    | failure trace' => exact absurd houtcome (BoundedBy.ne_failure _ trace')
    | ok text rest =>
      obtain ⟨hhead, hblock⟩ := hfeed.1 houtcome
      obtain ⟨parts, hparts, -⟩ := Option.map_eq_some_iff.1 hblock
      rw [block_eq_ok.2 ⟨hhead, hparts⟩] at hmismatch
      cases hmismatch

end Block

instance : InStep keeps parentheses parentheses := block_inStep (by decide) (by decide)

instance : Consuming parentheses := by
  unfold parentheses
  infer_instance

instance : InStep keeps braces braces := block_inStep (by decide) (by decide)

instance : Consuming braces := by
  unfold braces
  infer_instance

instance : InStep keeps angleBrackets angleBrackets := block_inStep (by decide) (by decide)

instance : Consuming angleBrackets := by
  unfold angleBrackets
  infer_instance

/-! ### Expressions -/

namespace Text

theorem dropTail_lineFeed {property : Char → Bool} (hproperty : property '\n' = true) (text : Text) :
    dropTail property (text ++ ['\n']) = dropTail property text := by
  rw [dropTail, List.reverse_append, List.reverse_singleton, List.singleton_append, List.dropWhile_cons_of_pos hproperty]
  rfl

theorem trimEnd_lineFeed (text : Text) : trimEnd (text ++ ['\n']) = trimEnd text := dropTail_lineFeed (by decide) text

theorem trim_lineFeed (text : Text) : trim (text ++ ['\n']) = trim text := by
  unfold trim trimStart
  by_cases htext : text.dropWhile isBlank = []
  · rw [List.dropWhile_append, htext]
    rfl
  · rw [dropWhile_lineFeed_of_ne htext, trimEnd_lineFeed]

end Text

/-- An expression that comes to the end of the text takes in the line feed. -/
theorem expressionFrom_lineFeed {stops : Text} (hstops : isStop stops '\n' = false) (angles : Bool) (opened : List Char)
    (mode : Scan.Mode) (before input : Text) {taken rest : Text}
    (hread : expressionFrom stops angles opened mode before input = (taken, rest)) :
    expressionFrom stops angles opened mode before (input ++ ['\n']) =
      if rest = [] then (taken ++ ['\n'], []) else (taken, rest ++ ['\n']) := by
  fun_induction expressionFrom stops angles opened mode before input with
  | case1 opened mode before =>
    have hend (opened : List Char) (mode : Scan.Mode) :
        expressionFrom stops angles opened mode ('\n' :: before) [] = (before.reverse ++ ['\n'], []) := by
      rw [expressionFrom, List.reverse_cons]
    have hsemicolon : ('\n' == ';') = false := by decide
    have hopened : bracketsBehind angles opened '\n' = some opened := rfl
    cases hread
    rw [List.nil_append, if_pos rfl, expressionFrom]
    split
    · exact hend ..
    · rw [hsemicolon, hstops, Bool.or_false, Bool.and_false, if_neg Bool.false_ne_true, hopened]
      exact hend ..
  | case2 opened mode before c input mode' hmode ih =>
    rw [List.cons_append, expressionFrom, Scan.Mode.step_lineFeed, hmode]
    exact ih hread
  | case3 opened mode before c input hmode hstop =>
    cases hread
    rw [List.cons_append, expressionFrom, Scan.Mode.step_lineFeed, hmode]
    dsimp only
    rw [if_pos hstop]
    rfl
  | case4 opened mode before c input hmode hstop opened' hopened ih =>
    rw [List.cons_append, expressionFrom, Scan.Mode.step_lineFeed, hmode]
    dsimp only
    rw [if_neg hstop, hopened]
    exact ih hread
  | case5 opened mode before c input hmode hstop hclosed =>
    cases hread
    rw [List.cons_append, expressionFrom, Scan.Mode.step_lineFeed, hmode]
    dsimp only
    rw [if_neg hstop, hclosed]
    rfl

theorem expression_inStep (stops : Text) (hstops : isStop stops '\n' = false) (angles : Bool) :
    InStep false (expression stops angles) (expression stops angles) where
  outcome {ahead input input'} hinput := by
    cases hinput with
    | done => exact .mismatch
    | feed hwhole =>
      cases hread : expressionFrom stops angles [] .code [] input with
      | mk taken rest =>
        have hsuffix : rest <:+ input := ⟨taken, by
          have happend := expressionFrom_append stops angles [] .code [] input
          rwa [hread] at happend⟩
        have hfeed := expressionFrom_lineFeed hstops angles [] .code [] input hread
        unfold expression
        rw [hread]
        by_cases hrest : rest = []
        · rw [if_pos hrest] at hfeed
          rw [hfeed]
          dsimp only
          rw [Text.trim_lineFeed, hrest]
          split
          · exact .mismatch
          · exact .ok .done (.inr ⟨rfl, rfl⟩)
        · rw [if_neg hrest] at hfeed
          rw [hfeed]
          dsimp only
          split
          · exact .mismatch
          · exact .ok (.feed (hwhole.suffix hsuffix)) (.refl ..)

/-! ### Gaps -/

theorem behindComment?_blockComment_lineFeed (content : Text) :
    behindComment? ('/' :: '*' :: (content ++ ['\n'])) = (behindComment? ('/' :: '*' :: content)).map (· ++ ['\n']) := by
  have hmark : "*/".toList ≠ [] ∧ '\n' ∉ "*/".toList := by decide
  simp only [behindComment?]
  rw [Text.splitBefore?_lineFeed hmark.1 hmark.2]
  cases hsplit : Text.splitBefore? "*/".toList content with
  | none => rfl
  | some parts =>
    have hlength : 2 ≤ parts.2.length := (Text.splitBefore?_begins hsplit).length_le
    exact congrArg some (List.drop_append_of_le_length hlength)

theorem behindComment?_lineComment_lineFeed {line : Text} (hwhole : IsWhole ('/' :: '/' :: line)) :
    behindComment? ('/' :: '/' :: (line ++ ['\n'])) = (behindComment? ('/' :: '/' :: line)).map (· ++ ['\n']) := by
  have hsteps : (restOfLine line).InStep true true (restOfLine (line ++ ['\n'])) :=
    restOfLine_outcome (.feed (hwhole.suffix ⟨['/', '/'], rfl⟩)) hwhole.line
  simp only [behindComment?]
  rcases hsteps.cases with ⟨text, rest, rest', behind, hline, hfeed, hrest, hpasses⟩ | ⟨_, _, hline, hfeed⟩ | ⟨_, _, hline, hfeed⟩
    <;> rw [hline, hfeed]
  · obtain rfl : behind = true := hpasses.resolve_right fun hmerged => Bool.noConfusion hmerged.1
    cases hrest
    rfl
  · rfl
  · rfl

theorem behindComment?_lineFeed {input : Text} (hwhole : IsWhole input) :
    behindComment? (input ++ ['\n']) = (behindComment? input).map (· ++ ['\n']) := by
  have hnone {c d : Char} (hline : ¬(c = '/' ∧ d = '/')) (hblock : ¬(c = '/' ∧ d = '*')) (rest : Text) :
      behindComment? (c :: d :: rest) = none := by
    unfold behindComment?
    split
    · next heq => cases heq; exact absurd ⟨rfl, rfl⟩ hline
    · next heq => cases heq; exact absurd ⟨rfl, rfl⟩ hblock
    · rfl
  rcases input with _ | ⟨c, _ | ⟨d, rest⟩⟩
  · rfl
  · have hline : ¬(c = '/' ∧ '\n' = '/') := fun heq => absurd heq.2 (by decide)
    have hblock : ¬(c = '/' ∧ '\n' = '*') := fun heq => absurd heq.2 (by decide)
    have hlast : behindComment? [c] = none := by
      unfold behindComment?
      split
      · next heq => cases heq
      · next heq => cases heq
      · rfl
    rw [List.singleton_append, hnone hline hblock, hlast]
    rfl
  · by_cases hline : c = '/' ∧ d = '/'
    · obtain ⟨rfl, rfl⟩ := hline
      exact behindComment?_lineComment_lineFeed hwhole
    · by_cases hblock : c = '/' ∧ d = '*'
      · obtain ⟨rfl, rfl⟩ := hblock
        exact behindComment?_blockComment_lineFeed rest
      · rw [List.cons_append, List.cons_append, hnone hline hblock, hnone hline hblock]
        rfl

theorem gapEnd_lineFeed {input : Text} (hwhole : IsWhole input) :
    gapEnd (input ++ ['\n']) = if gapEnd input = [] then [] else gapEnd input ++ ['\n'] := by
  have hend : gapEnd ['\n'] = [] := by rw [gapEnd, if_pos (by decide), gapEnd]
  fun_induction gapEnd input with
  | case1 => rw [if_pos rfl]; exact hend
  | case2 c rest hc ih =>
    rw [List.cons_append, gapEnd, if_pos hc]
    exact ih (hwhole.suffix (List.suffix_cons c rest))
  | case3 c rest hc behind hcomment ih =>
    have hfeed : behindComment? (c :: rest ++ ['\n']) = some (behind ++ ['\n']) := by
      rw [behindComment?_lineFeed hwhole, hcomment]
      rfl
    rw [gapEnd_of_behindComment? hfeed]
    exact ih (hwhole.suffix (behindComment?_suffix hcomment))
  | case4 c rest hc hcomment =>
    have hfeed := behindComment?_lineFeed hwhole
    rw [hcomment, List.cons_append] at hfeed
    rw [if_neg (List.cons_ne_nil c rest), List.cons_append, gapEnd, if_neg hc]
    split
    · next hsome => rw [hsome] at hfeed; cases hfeed
    · rfl

instance : InStep false skipGap skipGap where
  outcome {ahead input input'} hinput := by
    unfold skipGap
    cases hinput with
    | done => exact .ok (by rw [gapEnd]; exact .done) (.refl ..)
    | feed hwhole =>
      rw [gapEnd_lineFeed hwhole]
      split
      · next hend =>
        rw [hend]
        exact .ok .done (.inr ⟨rfl, rfl⟩)
      · exact .ok (.feed (hwhole.suffix (gapEnd_suffix input))) (.refl ..)

section Gap

variable {α : Type} {p q : Parser α}

instance [InStep keeps p q] [Consuming p] : InStep keeps (afterGap p) (afterGap q) := by
  unfold afterGap
  infer_instance

instance [InStep false p q] : InStep false (afterGap p) (afterGap q) := by
  unfold afterGap
  infer_instance

instance [InStep false p q] : InStep false (beforeGap p) (beforeGap q) := by
  unfold beforeGap
  infer_instance

instance [InStep false p q] : InStep false (spaced p) (spaced q) := by
  unfold spaced
  infer_instance

end Gap

/-! ### Attributes and macros -/

instance : Solid ["[["] := ⟨by decide⟩

instance : Solid ["]]"] := ⟨by decide⟩

instance : InStep keeps attributeMark attributeMark := by
  have : Solid ["__attribute__", "__declspec", "alignas"] := ⟨by decide⟩
  unfold attributeMark
  infer_instance

instance : Consuming attributeMark := by
  have : Solid ["__attribute__", "__declspec", "alignas"] := ⟨by decide⟩
  unfold attributeMark
  infer_instance

instance : InStep false attributes attributes := by
  unfold attributes
  infer_instance

instance : InStep keeps staticAssertion staticAssertion := by
  have : Solid ["static_assert", "_Static_assert"] := ⟨by decide⟩
  unfold staticAssertion
  infer_instance

/-! ### Comments -/

namespace Comment

/-- The line behind the mark of a line comment, with its ending. -/
def lineBehindMark : Parser Text := do
  let line ← restOfLine
  let _ ← opt lineEnding
  pure (lineText line)

theorem lineBehindMark_outcome {before : Bool} {input input' : Text} (hinput : Ahead before input input')
    (hline : input.dropWhile isInLine ≠ ['\r']) : (lineBehindMark input).InStep false before (lineBehindMark input') := by
  have hending (line : Text) : (do let _ ← opt lineEnding; pure (lineText line) : Parser Text) =
      (fun _ => lineText line) <$> (fun _ => ()) <$> opt lineEnding := by
    rw [← comp_map]
    rfl
  unfold lineBehindMark
  rw [bind_apply, bind_apply]
  have hsteps : (restOfLine input).InStep false before (restOfLine input') := restOfLine_outcome hinput hline
  rcases hsteps.cases with ⟨line, rest, rest', behind, hread, hread', hrest, hpasses⟩ | ⟨_, _, hread, hread'⟩ |
    ⟨_, _, hread, hread'⟩ <;> rw [hread, hread']
  · change Outcome.InStep false before ((do let _ ← opt lineEnding; pure (lineText line) : Parser Text) rest)
      ((do let _ ← opt lineEnding; pure (lineText line) : Parser Text) rest')
    rw [hending, map_apply, map_apply]
    exact ((optLineEnding_outcome hrest (restOfLine_rest_ne hread)).map _).behind hpasses
  · exact .mismatch
  · exact .failure

/-- The marks of a line comment. -/
def lineMark : Parser Text := firstOf [literal "///", literal "//!", literal "//"]

theorem lineMark_eq_ok {input mark rest : Text} (hmark : lineMark input = .ok mark rest) :
    ∃ line, input = '/' :: '/' :: line ∧ line.dropWhile isInLine = rest.dropWhile isInLine := by
  have hmarks : ∀ word ∈ ["///", "//!", "//"],
      word.toList = '/' :: '/' :: word.toList.drop 2 ∧ ∀ c ∈ word.toList.drop 2, isInLine c = true := by decide
  obtain ⟨p, hp, hread⟩ := firstOf_eq_ok hmark
  obtain ⟨word, hword, rfl⟩ := List.mem_map.1 (show p ∈ ["///", "//!", "//"].map literal from hp)
  obtain ⟨hslashes, hmore⟩ := hmarks word hword
  obtain ⟨rfl, rfl⟩ := literal_eq_ok.1 hread
  exact ⟨word.toList.drop 2 ++ rest, by rw [hslashes]; rfl, List.dropWhile_append_of_pos hmore⟩

end Comment

instance : InStep false Comment.oneLine Comment.oneLine where
  outcome {before input input'} hinput := by
    have : Solid ["///"] := ⟨by decide⟩
    have : Solid ["//!"] := ⟨by decide⟩
    have : Solid ["//"] := ⟨by decide⟩
    have hmark : InStep true Comment.lineMark Comment.lineMark := by
      unfold Comment.lineMark
      infer_instance
    have heq : Comment.oneLine = Comment.lineMark >>= fun _ => Comment.lineBehindMark := rfl
    rw [heq, bind_apply, bind_apply]
    rcases InStep.cases true Comment.lineMark Comment.lineMark hinput with
      ⟨mark, rest, rest', behind, hread, hread', hrest, hpasses⟩ | ⟨_, _, hread, hread'⟩ | ⟨_, _, hread, hread'⟩ <;> rw [hread, hread']
    · obtain ⟨line, rfl, hline⟩ := Comment.lineMark_eq_ok hread
      obtain rfl : behind = before := hpasses.resolve_right fun hmerged => Bool.noConfusion hmerged.1
      refine Comment.lineBehindMark_outcome hrest ?_
      cases hinput with
      | feed hwhole => exact hline ▸ hwhole.line
    · exact .mismatch
    · exact .failure

instance : InStep keeps Comment.blockLines Comment.blockLines := by
  have : Solid ["/*"] := ⟨by decide⟩
  have : Solid ["*/"] := ⟨by decide⟩
  unfold Comment.blockLines
  infer_instance

instance : InStep false comment comment := by
  unfold comment
  infer_instance

instance : InStep false leadingComment leadingComment := by
  unfold leadingComment
  infer_instance

/-! ### Directives -/

namespace Directive

/-- A logical line that goes on to the end of the text takes in the line feed. -/
theorem splitLogicalLine_lineFeed {line input front back : Text} (hsplit : splitLogicalLine line input = (front, back)) :
    splitLogicalLine line (input ++ ['\n']) = (front, back ++ ['\n']) ∨
      (back = [] ∧ splitLogicalLine line (input ++ ['\n']) = (front ++ ['\n'], [])) := by
  fun_induction splitLogicalLine line input generalizing front back with
  | case1 line =>
    cases hsplit
    refine .inr ⟨rfl, ?_⟩
    rw [List.nil_append, splitLogicalLine]
    split <;> rfl
  | case2 line c rest hend =>
    cases hsplit
    rw [List.cons_append, splitLogicalLine, if_pos hend]
    exact .inl rfl
  | case3 line c rest hgo front' back' heq ih =>
    cases hsplit
    rw [List.cons_append, splitLogicalLine, if_neg hgo]
    rcases ih heq with hsame | ⟨hdone, hmore⟩
    · rw [hsame]
      exact .inl rfl
    · rw [hmore]
      exact .inr ⟨hdone, rfl⟩

instance : InStep false logicalLine logicalLine where
  outcome {ahead input input'} hinput := by
    unfold logicalLine
    cases hinput with
    | done => exact .ok .done (.refl ..)
    | feed hwhole =>
      cases hsplit : splitLogicalLine [] input with
      | mk front back =>
        have happend := splitLogicalLine_append [] input
        rw [hsplit] at happend
        rcases splitLogicalLine_lineFeed hsplit with hfeed | ⟨hdone, hfeed⟩ <;> rw [hfeed]
        · exact .ok (.feed (hwhole.suffix ⟨front, happend⟩)) (.refl ..)
        · dsimp only
          rw [Text.trimEnd_lineFeed, hdone]
          exact .ok .done (.inr ⟨rfl, rfl⟩)

instance : InStep false line line := by
  unfold line
  infer_instance

theorem beforeCommentMark_lineFeed (text : Text) :
    beforeCommentMark (text ++ ['\n']) = beforeCommentMark text ∨
      beforeCommentMark (text ++ ['\n']) = beforeCommentMark text ++ ['\n'] := by
  induction text with
  | nil => exact .inr rfl
  | cons c text ih =>
    have hmark : (c = '/' ∧ ((text ++ ['\n']).head? = some '/' ∨ (text ++ ['\n']).head? = some '*')) ↔
        (c = '/' ∧ (text.head? = some '/' ∨ text.head? = some '*')) := by
      rw [Scan.head?_lineFeed (by decide), Scan.head?_lineFeed (by decide)]
    simp only [List.cons_append, beforeCommentMark, hmark]
    split
    · exact .inl rfl
    · exact ih.imp (congrArg _) (congrArg _)

theorem withoutComment_lineFeed (text : Text) : withoutComment (text ++ ['\n']) = withoutComment text := by
  unfold withoutComment
  rcases beforeCommentMark_lineFeed text with heq | heq
  · rw [heq]
  · rw [heq, Text.trim_lineFeed]

/-- Of the whole text of a directive, only what stands in front of comments and white space counts. -/
theorem ofBody_congr {text text' : Text} (htext : withoutComment text' = withoutComment text) (name body : Text) :
    ofBody name body text' = ofBody name body text := by
  unfold ofBody
  rw [htext]

instance (name body text : Text) : InStep false (ofBody name body text) (ofBody name body text) where
  outcome {ahead input input'} hinput := by
    unfold ofBody
    dsimp only
    split
    · split <;> exact .ok hinput (.refl ..)
    · split
      · split
        · exact .ok hinput (.refl ..)
        · exact .mismatch
        · exact .failure
      · split <;> exact .ok hinput (.refl ..)

end Directive

instance : InStep false directive directive where
  outcome {ahead input input'} hinput := by
    rw [directive_eq, directive_eq]
    rcases InStep.cases false Directive.line Directive.line hinput with
      ⟨⟨name, body⟩, rest, rest', behind, hline, hline', hrest, hpasses⟩ | ⟨_, _, hline, hline'⟩ | ⟨_, _, hline, hline'⟩
      <;> rw [hline, hline']
    · dsimp only
      have htext : Directive.withoutComment (input'.take (input'.length - rest'.length)) =
          Directive.withoutComment (input.take (input.length - rest.length)) := by
        rcases hpasses with rfl | ⟨-, hdone⟩
        · rw [hinput.consumed_eq hrest]
        · obtain ⟨rfl, rfl⟩ := hrest.nil hdone
          cases hinput with
          | feed _ =>
            rw [List.length_nil, Nat.sub_zero, Nat.sub_zero, List.take_length, List.take_length]
            exact Directive.withoutComment_lineFeed input
          | done => rfl
      rw [Directive.ofBody_congr htext]
      exact (InStep.outcome hrest).behind hpasses
    · exact .mismatch
    · exact .failure

end HeaderOutline
