import HeaderOutline.Conversion
import HeaderOutline.Proofs.Grammar
import HeaderOutline.Proofs.Parser.Reading
/-!
# Items are never given back

The alternatives of an item end in one that fails for good, so an item either is read or stops the whole
header, and an item that is read takes something away. A body is therefore a loop that can end in two ways
only: at its closing brace or the end of the text, or with a failure. `items_advance` puts this together, up
to the header that is read to its last character.
-/

namespace HeaderOutline

open HeaderOutline.Parser

/-- Never gives the input back: it fails for good, or leaves a shorter suffix. -/
structure Parser.Advances {α : Type} (p : Parser α) : Prop where
  committed : ∀ input trace, p input ≠ .mismatch trace
  shorter : ∀ input a rest, p input = .ok a rest → rest <:+ input ∧ rest.length < input.length

theorem Parser.advances {α : Type} (p : Parser α) [Bounded p] [Consuming p] [Decided p] : Advances p where
  committed := Decided.ne_mismatch
  shorter _ _ _ hok := ⟨Bounded.suffix hok, Consuming.lt hok⟩

/-- A loop that succeeds has come to its stop. -/
theorem manyTill_ok {α β : Type} {p : Parser α} {stop : Parser β} {input rest : Text} {list : List α}
    (hloop : manyTill p stop input = .ok list rest) : ∃ place b, stop place = .ok b rest := by
  fun_induction manyTill p stop input generalizing list with
  | case1 input b mid hstop =>
    cases hloop
    exact ⟨input, b, hstop⟩
  | case2 => cases hloop
  | case3 input _ _ a mid _ _ ih =>
    obtain ⟨tail, htail, -⟩ := Outcome.map_eq_ok.1 hloop
    exact ih htail
  | case4 => cases hloop
  | case5 => cases hloop
  | case6 => cases hloop

theorem scopeEnd_false_ok {place rest : Text} (hstop : Scope.scopeEnd false place = .ok () rest) :
    rest = [] := by
  obtain ⟨_, mid, -, heof⟩ := bind_eq_ok.1 hstop
  exact (eof_eq_ok.1 heof).2

/-- A scope that is no block ends with the text. -/
theorem scope_false_ok {room : Nat} {input rest : Text} {contents : Scope}
    (hscope : scope room false input = .ok contents rest) : rest = [] := by
  cases room with
  | zero => cases hscope
  | succ room =>
    unfold scope at hscope
    obtain ⟨items, hloop, -⟩ := map_eq_ok.1 hscope
    obtain ⟨place, _, hstop⟩ := manyTill_ok hloop
    exact scopeEnd_false_ok hstop

theorem header_ok {room : Nat} {source rest : Text} {found : Header}
    (hheader : header room source = .ok found rest) : rest = [] := by
  obtain ⟨contents, hscope, -⟩ := map_eq_ok.1 hheader
  exact scope_false_ok hscope

/-- Items of scopes and of classes advance. So the loops over them never mismatch, which is how they would
say that an item makes no progress, and a header that is read is read to its end: the report about text
behind it is never made. -/
theorem items_advance :
    (∀ room isBlock input trace, scope room isBlock input ≠ .mismatch trace) ∧
    (∀ room, (scopeItem room).Advances) ∧
    (∀ room, (recordItem room).Advances) ∧
    (∀ room isBlock input trace, manyTill (scopeItem room) (Scope.scopeEnd isBlock) input ≠ .mismatch trace) ∧
    (∀ room input trace, recordBody room input ≠ .mismatch trace) ∧
    (∀ room input contents rest, scope room false input = .ok contents rest → rest = []) ∧
    (∀ room source found rest, header room source = .ok found rest → rest = []) ∧
    (∀ path source, Header.parse path source = match header nestingLimit source with
      | .ok found _ => .ok found
      | .mismatch trace | .failure trace => .error (.parse path (SyntaxError.ofTrace source trace))) := by
  refine ⟨fun room isBlock => Decided.ne_mismatch, fun room => advances _, fun room => advances _,
    fun room isBlock => Decided.ne_mismatch, fun room => Decided.ne_mismatch,
    fun room input contents rest => scope_false_ok, fun room source found rest => header_ok,
    fun path source => ?_⟩
  unfold Header.parse
  cases hheader : header nestingLimit source with
  | ok found rest =>
    cases header_ok hheader
    rfl
  | mismatch trace => rfl
  | failure trace => rfl

/-- An item in front of other text, and a header that an item fills. -/
theorem items_advance_semicolon :
    scopeItem nestingLimit "; x".toList = .ok .ignored " x".toList ∧
    (" x".toList <:+ "; x".toList ∧ " x".toList.length < "; x".toList.length) ∧
    recordItem nestingLimit ";\x7d".toList = .ok .ignored "\x7d".toList ∧
    ("\x7d".toList <:+ ";\x7d".toList ∧ "\x7d".toList.length < ";\x7d".toList.length) ∧
    Header.parse "a.h".toList ";".toList = .ok (Header.ofScope {}) := by
  refine ⟨rfl, (items_advance.2.1 nestingLimit).shorter _ _ _ rfl, rfl,
    (items_advance.2.2.1 nestingLimit).shorter _ _ _ rfl, ?_⟩
  have hheader : header nestingLimit ";".toList = .ok (Header.ofScope {}) [] := by cbv
  obtain ⟨-, -, -, -, -, -, -, hparse⟩ := items_advance
  rw [hparse, hheader]

end HeaderOutline
