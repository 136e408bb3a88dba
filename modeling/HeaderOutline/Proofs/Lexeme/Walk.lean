import Mathlib.Data.List.Basic
import HeaderOutline.Proofs.Lexeme.Skip
/-!
# Scans that only see code

Blocks and expressions are scanned in the same way: literals and comments are skipped, and a state is kept for the code
between them. `run` is such a scan with any state. `Walks` says how a text falls into code and skipped pieces, and
`exists_walks` that a scan goes over whole pieces and stops in front of code, or at the end. So a scan is a fold over the
code, and what is said of one has nothing more to do with literals and comments.
-/

namespace HeaderOutline.Scan

variable {σ : Type} {step : σ → Char → Option σ} {state state' : σ} {mode mode' : Mode}
  {before before' piece text rest rest' code code' : Text} {quote c : Char} {ended : Bool}

/-- Scans on behind `before`, with a state for the code. The scan ends with the text, or in front of a character of code
behind which there is no state. -/
def run (step : σ → Char → Option σ) (state : σ) (mode : Mode) (before : Text) : Text → σ × Text × Text
  | [] => (state, before.reverse, [])
  | c :: rest =>
    match mode.step before c rest with
    | some mode' => run step state mode' (c :: before) rest
    | none =>
      match step state c with
      | some state' => run step state' .code (c :: before) rest
      | none => (state, before.reverse, c :: rest)

theorem run_of_step (hstep : mode.step before c rest = some mode') :
    run step state mode before (c :: rest) = run step state mode' (c :: before) rest := by
  rw [run, hstep]

theorem run_of_code (hc : IsCode c rest) (hstate : step state c = some state') :
    run step state .code before (c :: rest) = run step state' .code (c :: before) rest := by
  rw [run, hc.step before]
  simp only [hstate]

theorem run_of_stop (hc : IsCode c rest) (hstate : step state c = none) :
    run step state .code before (c :: rest) = (state, before.reverse, c :: rest) := by
  rw [run, hc.step before]
  simp only [hstate]

/-! ### Skipped pieces -/

theorem run_quoted (hquote : quote ≠ '\\') (htext : Quoted quote ended text) (hended : ended = false → rest = [])
    (before : Text) :
    run step state (.quoted quote) before (text ++ rest) = run step state .code (text.reverse ++ before) rest := by
  induction htext generalizing before with
  | close =>
    apply run_of_step
    simp [Mode.step, hquote]
  | @plain ended c text hc hslash _ ih =>
    have hstep : (Mode.quoted quote).step before c (text ++ rest) = some (.quoted quote) := by simp [Mode.step, hc, hslash]
    rw [List.cons_append, run_of_step hstep, ih hended]
    simp
  | @escape ended c text _ ih =>
    have hslash : (Mode.quoted quote).step before '\\' (c :: (text ++ rest)) = some (.escaped quote) := by simp [Mode.step]
    have hstep : (Mode.escaped quote).step ('\\' :: before) c (text ++ rest) = some (.quoted quote) := rfl
    rw [List.cons_append, List.cons_append, run_of_step hslash, run_of_step hstep, ih hended]
    simp
  | runsOut =>
    rw [hended rfl]
    rfl
  | runsOutEscaping =>
    have hslash : (Mode.quoted quote).step before '\\' [] = some (.escaped quote) := by simp [Mode.step]
    rw [hended rfl, List.append_nil, run_of_step hslash]
    rfl

theorem run_commented (htext : Commented ended text) (hended : ended = false → rest = []) (before : Text) :
    run step state .blockComment before (text ++ rest) = run step state .code (text.reverse ++ before) rest := by
  induction htext generalizing before with
  | close =>
    have hstar : Mode.blockComment.step before '*' ('/' :: rest) = some .blockClosing := by simp [Mode.step]
    have hslash : Mode.blockClosing.step ('*' :: before) '/' rest = some .code := rfl
    rw [List.cons_append, List.singleton_append, run_of_step hstar, run_of_step hslash]
    rfl
  | @plain ended c text hc htext ih =>
    have hhead : ¬(c = '*' ∧ (text ++ rest).head? = some '/') := by
      rintro ⟨hstar, hslash⟩
      cases htext with
      | runsOut =>
        rw [hended rfl] at hslash
        cases hslash
      | close => exact hc hstar hslash
      | plain => exact hc hstar hslash
    have hstep : Mode.blockComment.step before c (text ++ rest) = some .blockComment := by
      rw [Mode.step, if_neg hhead]
    rw [List.cons_append, run_of_step hstep, ih hended]
    simp
  | runsOut =>
    rw [hended rfl]
    rfl

theorem run_lineComment (htext : '\n' ∉ text) (hrest : ∀ c ∈ rest.head?, c = '\n') (before : Text) :
    run step state .lineComment before (text ++ rest) = run step state .code (text.reverse ++ before) rest := by
  induction text generalizing before with
  | nil =>
    cases rest with
    | nil => rfl
    | cons c rest =>
      -- The line feed is code, and code goes on behind it.
      obtain rfl := hrest c rfl
      rfl
  | cons c text ih =>
    rw [List.mem_cons, not_or] at htext
    have hstep : Mode.lineComment.step before c (text ++ rest) = some .lineComment := if_neg (Ne.symm htext.1)
    rw [List.cons_append, run_of_step hstep, ih htext.2]
    simp

theorem run_skips (hpiece : Skips before piece rest) :
    run step state .code before (piece ++ rest) = run step state .code (piece.reverse ++ before) rest := by
  cases hpiece with
  | separator hmark =>
    apply run_of_step
    simp [Mode.step, enter, hmark]
  | @character ended text _ hmark htext hended =>
    have hstep : Mode.code.step before '\'' (text ++ rest) = some (.quoted '\'') := by simp [Mode.step, enter, hmark]
    rw [List.cons_append, run_of_step hstep, run_quoted (by decide) htext hended]
    simp
  | @string ended text _ htext hended =>
    have hstep : Mode.code.step before '"' (text ++ rest) = some (.quoted '"') := rfl
    rw [List.cons_append, run_of_step hstep, run_quoted (by decide) htext hended]
    simp
  | @lineComment text _ htext hrest =>
    have hopens : Mode.code.step before '/' ('/' :: (text ++ rest)) = some .lineComment := rfl
    have hstep : Mode.lineComment.step ('/' :: before) '/' (text ++ rest) = some .lineComment := rfl
    rw [List.cons_append, List.cons_append, run_of_step hopens, run_of_step hstep, run_lineComment htext hrest]
    simp
  | @blockComment ended text _ htext hended =>
    have hopens : Mode.code.step before '/' ('*' :: (text ++ rest)) = some .blockOpening := rfl
    have hstep : Mode.blockOpening.step ('/' :: before) '*' (text ++ rest) = some .blockComment := rfl
    rw [List.cons_append, List.cons_append, run_of_step hopens, run_of_step hstep, run_commented htext hended]
    simp

/-! ### Walks -/

/-- In front of `rest` and behind `before`, the text falls into characters of code, which are `code`, and skipped pieces. -/
inductive Walks (rest : Text) : (before text code : Text) → Prop
  | nil {before : Text} : Walks rest before [] []
  | code {before text code : Text} {c : Char} (hc : IsCode c (text ++ rest)) (htext : Walks rest (c :: before) text code) :
    Walks rest before (c :: text) (c :: code)
  | skip {before piece text code : Text} (hpiece : Skips before piece (text ++ rest))
    (htext : Walks rest (piece.reverse ++ before) text code) : Walks rest before (piece ++ text) code

theorem Walks.eq_nil (htext : Walks rest before [] code) : code = [] := by
  generalize hnil : ([] : Text) = text at htext
  cases htext with
  | nil => rfl
  | code => cases hnil
  | skip hpiece => exact absurd (List.append_eq_nil_iff.1 hnil.symm).1 hpiece.ne_nil

theorem Walks.append {front back backCode : Text} (hfront : Walks (back ++ rest) before front code)
    (hback : Walks rest (front.reverse ++ before) back backCode) : Walks rest before (front ++ back) (code ++ backCode) := by
  induction hfront with
  | nil => exact hback
  | code hc _ ih =>
    rw [← List.append_assoc] at hc
    refine .code hc (ih ?_)
    rwa [List.reverse_cons, List.append_assoc, List.singleton_append] at hback
  | skip hpiece _ ih =>
    rw [← List.append_assoc] at hpiece
    rw [List.append_assoc]
    refine .skip hpiece (ih ?_)
    rwa [List.reverse_append, List.append_assoc] at hback

/-- Nothing is read differently if only the first character of the text behind is the same. -/
theorem Walks.of_head? (hrest : rest.head? = rest'.head?) (htext : Walks rest before text code) : Walks rest' before text code := by
  have hhead (text : Text) : (text ++ rest).head? = (text ++ rest').head? := by rw [List.head?_append, List.head?_append, hrest]
  induction htext with
  | nil => exact .nil
  | code hc _ ih => exact .code (hc.of_head? (hhead _)) ih
  | skip hpiece _ ih => exact .skip (hpiece.of_head? (hhead _)) ih

/-- Each character of the code stands at a place of the text. -/
theorem Walks.split {front back : Text} (htext : Walks rest before text (front ++ c :: back)) :
    ∃ left right, text = left ++ c :: right ∧ Walks (c :: right ++ rest) before left front ∧ IsCode c (right ++ rest) ∧
      Walks rest (c :: left.reverse ++ before) right back := by
  generalize hcode : front ++ c :: back = code at htext
  induction htext generalizing front with
  | nil => exact absurd hcode (by simp)
  | @code before text code d hd htext ih =>
    cases front with
    | nil =>
      obtain ⟨rfl, rfl⟩ := List.cons.inj hcode
      exact ⟨[], text, rfl, .nil, hd, htext⟩
    | cons e front =>
      rw [List.cons_append] at hcode
      obtain ⟨rfl, htail⟩ := List.cons.inj hcode
      obtain ⟨left, right, rfl, hleft, hc, hright⟩ := ih htail
      refine ⟨e :: left, right, rfl, .code ?_ hleft, hc, ?_⟩
      · rwa [List.append_assoc] at hd
      · simpa using hright
  | @skip before piece text code hpiece _ ih =>
    obtain ⟨left, right, rfl, hleft, hc, hright⟩ := ih hcode
    refine ⟨piece ++ left, right, by rw [List.append_assoc], .skip ?_ hleft, hc, ?_⟩
    · rwa [List.append_assoc] at hpiece
    · simpa using hright

/-- A scan goes over a text as its state goes over the code. -/
theorem run_walks (htext : Walks rest before text code) (hstate : code.foldlM step state = some state') :
    run step state .code before (text ++ rest) = run step state' .code (text.reverse ++ before) rest := by
  induction htext generalizing state with
  | nil =>
    obtain rfl : state = state' := Option.some.inj hstate
    rfl
  | @code before text code c hc _ ih =>
    rw [List.foldlM_cons] at hstate
    obtain ⟨between, hbetween, hstate⟩ := Option.bind_eq_some_iff.1 hstate
    rw [List.cons_append, run_of_code hc hbetween, ih hstate]
    simp
  | @skip before piece text code hpiece _ ih =>
    rw [List.append_assoc, run_skips hpiece, ih hstate]
    simp

/-- What a scan has gone over is made up of code and whole pieces. It stops in front of code behind which there is no state, or
at the end. -/
theorem exists_walks (step : σ → Char → Option σ) (state : σ) (before text : Text) :
    ∃ taken rest code state', text = taken ++ rest ∧ Walks rest before taken code ∧ code.foldlM step state = some state' ∧
      run step state .code before text = (state', before.reverse ++ taken, rest) ∧
      ∀ c tail, rest = c :: tail → IsCode c tail ∧ step state' c = none := by
  induction hlength : text.length using Nat.strongRecOn generalizing state before text with
  | ind n ih =>
    cases text with
    | nil => exact ⟨[], [], [], state, rfl, .nil, rfl, by rw [List.append_nil]; rfl, fun _ _ h => by cases h⟩
    | cons c text =>
      rcases exists_skips before c text with hc | ⟨piece, behind, heq, hpiece⟩
      · cases hstep : step state c with
        | none =>
          refine ⟨[], c :: text, [], state, rfl, .nil, rfl, ?_, ?_⟩
          · rw [run_of_stop hc hstep, List.append_nil]
          · rintro d tail ⟨⟩
            exact ⟨hc, hstep⟩
        | some between =>
          obtain ⟨taken, rest, code, state', rfl, htaken, hstate, hrun, hstop⟩ := ih text.length (by simp [← hlength]) between
            (c :: before) text rfl
          refine ⟨c :: taken, rest, c :: code, state', rfl, .code hc htaken, ?_, ?_, hstop⟩
          · rw [List.foldlM_cons, hstep]
            exact hstate
          · rw [run_of_code hc hstep, hrun]
            simp
      · have hshorter : behind.length < n := by
          have hpositive := List.length_pos_iff.2 hpiece.ne_nil
          rw [← hlength, heq, List.length_append]
          omega
        obtain ⟨taken, rest, code, state', rfl, htaken, hstate, hrun, hstop⟩ := ih behind.length hshorter state
          (piece.reverse ++ before) behind rfl
        refine ⟨piece ++ taken, rest, code, state', ?_, .skip hpiece htaken, hstate, ?_, hstop⟩
        · rw [heq, List.append_assoc]
        · rw [heq, run_skips hpiece, hrun]
          simp

/-- Where a fold breaks off, there is a first character behind which there is no state. -/
theorem exists_of_foldlM_eq_none (hcode : code.foldlM step state = none) :
    ∃ front c back state', code = front ++ c :: back ∧ front.foldlM step state = some state' ∧ step state' c = none := by
  induction code generalizing state with
  | nil => cases hcode
  | cons c code ih =>
    cases hstep : step state c with
    | none => exact ⟨[], c, code, state, rfl, rfl, hstep⟩
    | some between =>
      rw [List.foldlM_cons, hstep] at hcode
      obtain ⟨front, d, back, state', rfl, hfront, hnone⟩ := ih hcode
      refine ⟨c :: front, d, back, state', rfl, ?_, hnone⟩
      rw [List.foldlM_cons, hstep]
      exact hfront

/-- A scan that starts behind another number does the same. -/
theorem run_congr_before (hbefore : before.takeWhile isNumberChar = before'.takeWhile isNumberChar) (state : σ) (mode : Mode)
    (text : Text) : ∃ state' taken rest, run step state mode before text = (state', before.reverse ++ taken, rest) ∧
      run step state mode before' text = (state', before'.reverse ++ taken, rest) := by
  induction text generalizing state mode before before' with
  | nil => exact ⟨state, [], [], by simp [run], by simp [run]⟩
  | cons c text ih =>
    have hcons : (c :: before).takeWhile isNumberChar = (c :: before').takeWhile isNumberChar := by
      rw [List.takeWhile_cons, List.takeWhile_cons, hbefore]
    have hgo (state : σ) (mode : Mode) : ∃ state' taken rest,
        run step state mode (c :: before) text = (state', before.reverse ++ taken, rest) ∧
          run step state mode (c :: before') text = (state', before'.reverse ++ taken, rest) := by
      obtain ⟨state', taken, rest, hleft, hright⟩ := ih hcons state mode
      refine ⟨state', c :: taken, rest, ?_, ?_⟩
      · simpa using hleft
      · simpa using hright
    have hmode := mode.step_congr_before hbefore c text
    cases hstep : mode.step before' c text with
    | some mode' =>
      rw [run_of_step (hmode.trans hstep), run_of_step hstep]
      exact hgo state mode'
    | none =>
      rw [run, run, hmode, hstep]
      cases hstate : step state c with
      | some state' => simpa only [hstate] using hgo state' .code
      | none => exact ⟨state, [], c :: text, by simp, by simp⟩

end HeaderOutline.Scan
