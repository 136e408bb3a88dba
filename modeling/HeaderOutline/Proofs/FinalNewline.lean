import HeaderOutline.Proofs.CType.Name
import HeaderOutline.Proofs.Commitment
import HeaderOutline.Proofs.FinalNewline.Grammar
import HeaderOutline.Proofs.FinalNewline.Macro
import HeaderOutline.Proofs.Parser.Items
/-!
# The final line feed

A header is read the same with a line feed at its end and without it, with one exception: a macro that stands alone
on its line is only known by the end of the line. Where the items of a header come to such a macro at the end of the text,
it is no item, and the header fails.
-/

set_option synthInstance.maxSize 1024

namespace HeaderOutline

open HeaderOutline.Parser

/-! ### The macro that stands alone -/

theorem loneMacro_of_mismatch {input : Text} (hname : Mismatches macroName input) : Mismatches loneMacro input :=
  hname.bind.textOf

/-- Only at the end of the text do the runs come apart, and there the line feed is all that is missing. -/
theorem loneMacro_outcome {before : Bool} {input input' : Text} (hinput : Ahead before input input') :
    (loneMacro input).InStep true before (loneMacro input') ∨ ∃ ending, IsLoneMacro ending input ∧
      Mismatches loneMacro input ∧ ∃ text, loneMacro input' = .ok text (ending ++ ['\n']) := by
  rcases InStep.cases true macroName macroName hinput with ⟨word, rest, rest', behind, hname, hname', hrest, hpasses⟩ |
    ⟨trace, trace', hname, hname'⟩ | ⟨trace, _, hname, -⟩
  · obtain ⟨hidentifier, hcapitals⟩ := filter_eq_ok.1 hname
    obtain ⟨rfl, hword, -⟩ := identifier_eq_ok.1 hidentifier
    obtain rfl : behind = before := hpasses.resolve_right fun hmerged => Bool.noConfusion hmerged.1
    rcases InStep.cases true blanks0 blanks0 hrest with ⟨blanks, mid, mid', between, hblanks, hblanks', hmid, hbetween⟩ |
      ⟨_, _, hblanks, -⟩ | ⟨_, _, hblanks, -⟩
    · obtain rfl : between = behind := hbetween.resolve_right fun hmerged => Bool.noConfusion hmerged.1
      have hread := (bind_of_ok (f := fun _ => blanks0 >>= fun _ => lookahead lineEnding) hname).trans (bind_of_ok hblanks)
      have hread' := (bind_of_ok (f := fun _ => blanks0 >>= fun _ => lookahead lineEnding) hname').trans (bind_of_ok hblanks')
      cases hmid with
      | done =>
        exact .inl (InStep.textOf_outcome hinput (by rw [hread, hread']; exact .mismatch))
      | feed hwhole =>
        by_cases hending : mid = [] ∨ mid = ['\r']
        · obtain ⟨rfl, hall, -⟩ := takeWhile_eq_ok.1 hblanks
          have hmark : ∃ mark, lookahead lineEnding (mid ++ ['\n']) = .ok mark (mid ++ ['\n']) := by
            rcases hending with rfl | rfl <;> exact ⟨_, rfl⟩
          have hnone : Mismatches (lookahead lineEnding) mid := by
            rcases hending with rfl | rfl <;> exact ⟨_, rfl⟩
          obtain ⟨mark, hmark⟩ := hmark
          refine .inr ⟨mid, ⟨hending, word, blanks, rfl, hword, hcapitals, hall⟩, ?_, textOf_eq_ok (hread'.trans hmark)⟩
          obtain ⟨trace, hnone⟩ := hnone
          exact Mismatches.textOf ⟨trace, hread.trans hnone⟩
        · rw [not_or] at hending
          refine .inl (InStep.textOf_outcome hinput ?_)
          rw [hread, hread']
          exact InStep.lookahead_outcome (.feed hwhole) (lineEnding_lineFeed hwhole hending.1 hending.2).loosen
    · cases hblanks
    · cases hblanks
  · obtain ⟨_, hmismatch⟩ := loneMacro_of_mismatch ⟨trace, hname⟩
    obtain ⟨_, hmismatch'⟩ := loneMacro_of_mismatch ⟨trace', hname'⟩
    rw [hmismatch, hmismatch']
    exact .inl .mismatch
  · exact absurd hname (BoundedBy.ne_failure input trace)

/-! ### Items -/

section Item

variable {α : Type}

/-- Only a macro is left to read. The first run fails for good, where the second one reads the macro up to its line ending. -/
def Parser.PartsAtMacro (p : Parser α) (input input' : Text) : Prop := ∃ spaces text ending, input = spaces ++ text ∧
  IsSpaces spaces ∧ IsLoneMacro ending text ∧ (∃ trace, p input = .failure trace) ∧ ∃ a, p input' = .ok a (ending ++ ['\n'])

/-- The parser does the same on both texts, unless no more than a macro is left of the first one. -/
class Parser.InStepToMacro (p : Parser α) : Prop where
  outcome : ∀ {before input input'}, Ahead before input input' → (p input).InStep false before (p input') ∨
    p.PartsAtMacro input input'

variable {p q : Parser α} {ps : List (Parser α)}

instance [InStep false p p] [InStepToMacro (firstOf (q :: ps))] : InStepToMacro (firstOf (p :: q :: ps)) where
  outcome {before input input'} hinput := by
    rcases InStep.cases false p p hinput with ⟨a, rest, rest', behind, hp, hp', hrest, hpasses⟩ | ⟨trace, trace', hp, hp'⟩ | ⟨_, _, hp, hp'⟩
    · rw [firstOf_of_ok hp, firstOf_of_ok hp']
      exact .inl (.ok hrest hpasses)
    · rw [PartsAtMacro, firstOf_of_mismatch ⟨trace, hp⟩, firstOf_of_mismatch ⟨trace', hp'⟩]
      exact InStepToMacro.outcome hinput
    · rw [firstOf, firstOf, hp, hp']
      exact .inl .failure

theorem macroInvocation_outcome {before : Bool} {input input' : Text} (hinput : Ahead before input input') :
    (macroInvocation input).InStep true before (macroInvocation input') ∨ ∃ ending, IsLoneMacro ending input ∧
      Mismatches macroInvocation input ∧ ∃ text, macroInvocation input' = .ok text (ending ++ ['\n']) := by
  let call : Parser Text := textOf do
    let _ ← macroName
    let _ ← afterGap parentheses
    opt (afterGap (char ';'))
  have hchoice : macroInvocation = firstOf [call, loneMacro] := rfl
  have hcall : InStep true call call := inferInstance
  rw [hchoice]
  rcases loneMacro_outcome hinput with hsteps | ⟨ending, hlone, hmismatch, text, hread⟩
  · exact .inl (InStep.firstOf_cons (hcall.outcome hinput) (InStep.firstOf_singleton hsteps))
  · rcases InStep.cases true call call hinput with ⟨a, rest, rest', behind, hok, hok', hrest, hpasses⟩ | ⟨trace, trace', hnone, hnone'⟩ |
      ⟨_, _, hfail, hfail'⟩
    · rw [firstOf_of_ok hok, firstOf_of_ok hok']
      exact .inl (.ok hrest hpasses)
    · refine .inr ⟨ending, hlone, .firstOf_cons ⟨trace, hnone⟩ (.firstOf_cons hmismatch .firstOf_nil), text, ?_⟩
      rw [firstOf_of_mismatch ⟨trace', hnone'⟩, firstOf_of_ok hread]
    · exact absurd hfail (BoundedBy.ne_failure input _)

/-- A macro is the last item that can be read, but for comments. -/
instance (priority := high) {f g : Text → α} {name : String} :
    InStepToMacro (firstOf [f <$> macroInvocation, g <$> comment, unrecognized name]) where
  outcome {before input input'} hinput := by
    rcases macroInvocation_outcome hinput with hsteps | ⟨ending, hlone, hmismatch, text, hread⟩
    · have hothers : InStep false (firstOf [g <$> comment, unrecognized name]) (firstOf [g <$> comment, unrecognized name]) :=
        inferInstance
      refine .inl (InStep.firstOf_cons ?_ (hothers.outcome hinput))
      rw [map_apply, map_apply]
      exact hsteps.loosen.map f
    · refine .inr ⟨[], input, ending, rfl, nofun, hlone, ?_, f text, firstOf_of_ok (map_of_ok hread)⟩
      rw [firstOf_of_mismatch hmismatch.map, firstOf_of_mismatch (comment_of_startsToken hlone.startsToken).map]
      exact ⟨_, rfl⟩

instance [InStepToMacro p] : InStepToMacro (spaces0 >>= fun _ => p) where
  outcome {before input input'} hinput := by
    have hspaces : Outcome.InStep false before (.ok () (input.dropWhile isSpace)) (.ok () (input'.dropWhile isSpace)) :=
      InStep.outcome (p := (fun _ => ()) <$> spaces0) (q := (fun _ => ()) <$> spaces0) hinput
    have hinput_eq : input = input.takeWhile isSpace ++ input.dropWhile isSpace := List.takeWhile_append_dropWhile.symm
    cases hspaces with
    | ok hrest hpasses =>
      refine (InStepToMacro.outcome hrest).imp (·.behind hpasses) fun ⟨spaces, text, ending, hdrop, hspaces, hread⟩ => ?_
      refine ⟨input.takeWhile isSpace ++ spaces, text, ending, ?_, ?_, hread⟩
      · rw [List.append_assoc, ← hdrop]
        exact hinput_eq
      · exact List.forall_mem_append.2 ⟨isSpaces_takeWhile input, hspaces⟩

end Item

instance (room : Nat) (definition : Parser Record) [InStep false definition definition] :
    InStepToMacro (recordItemWith room definition) := by
  unfold recordItemWith
  infer_instance

/-! ### Bodies -/

section Loop

variable {α β : Type} {p : Parser α} {stop : Parser β}

theorem Parser.InStep.mismatches [InStep false stop stop] {before : Bool} {input input' : Text} (hinput : Ahead before input input')
    (hstop : Mismatches stop input) : Mismatches stop input' := by
  obtain ⟨trace, hstop⟩ := hstop
  rcases InStep.cases false stop stop hinput with ⟨_, _, _, _, hok, -⟩ | ⟨_, trace', -, hstop'⟩ | ⟨_, _, hfail, -⟩
  · rw [hstop] at hok
    cases hok
  · exact ⟨trace', hstop'⟩
  · rw [hstop] at hfail
    cases hfail

theorem Parser.ItemsUpTo.ne_nil [Consuming p] {place input : Text} {items : List α} (hreads : ItemsUpTo p stop place input items)
    (hplace : place ≠ []) : input ≠ [] := by
  cases hreads with
  | here _ => exact List.append_ne_nil_of_right_ne_nil _ hplace
  | item _ hitem _ => exact Consuming.ne_nil hitem

/-- With the line feed, a loop comes to the macro behind the same items. -/
theorem Parser.ItemsUpTo.lineFeed [InStepToMacro p] [InStep false stop stop] [Consuming p] {text input : Text} {items : List α}
    (hreads : ItemsUpTo p stop text input items) (htext : text ≠ []) (hwhole : IsWhole input) :
    ItemsUpTo p stop (text ++ ['\n']) (input ++ ['\n']) items := by
  induction hreads with
  | here hspaces =>
    rw [List.append_assoc]
    exact .here hspaces
  | item hend hitem hbehind ih =>
    rcases InStepToMacro.outcome (p := p) (.feed hwhole) with hsteps | ⟨_, _, _, -, -, -, ⟨_, hfail⟩, -⟩
    · rcases hsteps.cases with ⟨_, _, _, _, hp, hp', hrest, -⟩ | ⟨_, _, hp, -⟩ | ⟨_, _, hp, -⟩ <;> cases hitem.symm.trans hp
      cases hrest with
      | feed hrest => exact .item (InStep.mismatches (.feed hwhole) hend) hp' (ih hrest)
      | done => exact absurd rfl (hbehind.ne_nil htext)
    · cases hitem.symm.trans hfail

/-- Only a macro is left for a loop to read. The first run fails for good, where the second one goes on behind the macro. -/
def Parser.LoopPartsAtMacro (p : Parser α) (stop : Parser β) (input input' : Text) : Prop := ∃ text ending items,
  IsLoneMacro ending text ∧ ItemsUpTo p stop text input items ∧ (∃ a, p (text ++ ['\n']) = .ok a (ending ++ ['\n'])) ∧
  (∃ trace, manyTill p stop input = .failure trace) ∧
  ∃ list, manyTill p stop input' = (manyTill p stop (ending ++ ['\n'])).map (list ++ ·)

theorem manyTill_outcome (p : Parser α) (stop : Parser β) [IgnoresSpaces p] [InStepToMacro p] [Consuming p] [Bounded p]
    [InStep false stop stop] {before : Bool} {input input' : Text} (hinput : Ahead before input input') :
    (manyTill p stop input).InStep false before (manyTill p stop input') ∨ LoopPartsAtMacro p stop input input' := by
  rcases InStep.cases false stop stop hinput with ⟨b, rest, rest', behind, hstop, hstop', hrest, hpasses⟩ |
    ⟨trace, trace', hstop, hstop'⟩ | ⟨_, _, hstop, hstop'⟩
  · rw [manyTill_of_stop hstop, manyTill_of_stop hstop']
    exact .inl (.ok hrest hpasses)
  · rcases InStepToMacro.outcome (p := p) hinput with hsteps | ⟨spaces, text, ending, hrest, hspaces, hlone, ⟨_, hfail⟩, a, hread⟩
    · rcases hsteps.cases with ⟨a, rest, rest', behind, hp, hp', hrest, hpasses⟩ | ⟨_, _, hp, hp'⟩ | ⟨_, _, hp, hp'⟩
      · have hlt : rest.length < input.length := Consuming.lt hp
        have hlt' := (hinput.length_lt_iff hrest (Consuming.ne_nil hp)).1 hlt
        rw [LoopPartsAtMacro, manyTill_of_ok ⟨trace, hstop⟩ hp hlt, manyTill_of_ok ⟨trace', hstop'⟩ hp' hlt']
        rcases manyTill_outcome p stop hrest with hsteps | ⟨text, ending, items, hlone, hitems, hfeed, ⟨_, hfail⟩, list, hmore⟩
        · exact .inl ((hsteps.map _).behind hpasses)
        · refine .inr ⟨text, ending, a :: items, hlone, .item ⟨trace, hstop⟩ hp hitems, hfeed, ?_, a :: list, ?_⟩
          · rw [hfail]
            exact ⟨_, rfl⟩
          · rw [hmore]
            cases manyTill p stop (ending ++ ['\n']) <;> rfl
      · rw [manyTill, manyTill, hstop, hstop', hp, hp']
        exact .inl .mismatch
      · rw [manyTill, manyTill, hstop, hstop', hp, hp']
        exact .inl .failure
    · cases hinput with
      | done => exact absurd (List.append_eq_nil_iff.1 hrest.symm).2 hlone.ne_nil
      | feed hwhole =>
        subst hrest
        have hfeed : p (text ++ ['\n']) = .ok a (ending ++ ['\n']) := by
          rw [← IgnoresSpaces.append (p := p) hspaces, ← List.append_assoc]
          exact hread
        refine .inr ⟨text, ending, [], hlone, .here hspaces, ⟨a, hfeed⟩, ?_, [a], ?_⟩
        · rw [manyTill, hstop, hfail]
          exact ⟨_, rfl⟩
        · rw [manyTill_of_ok ⟨trace', hstop'⟩ hread (Consuming.lt hread)]
          rfl
  · rw [manyTill, manyTill, hstop, hstop']
    exact .inl .failure
termination_by input.length

/-- A body that has to be closed does not end with a macro, with the line feed behind it or without. -/
theorem manyTill_inStep [IgnoresSpaces p] [IgnoresSpaces stop] [InStepToMacro p] [Consuming p] [Bounded p] [Decided p]
    [InStep false stop stop] (hstop : Mismatches stop []) : InStep false (manyTill p stop) (manyTill p stop) where
  outcome hinput := by
    rcases manyTill_outcome p stop hinput with hsteps | ⟨_, ending, _, hlone, -, -, ⟨_, hfail⟩, list, hmore⟩
    · exact hsteps
    · have hnone : p [] = p (ending ++ ['\n']) := by
        rw [← IgnoresSpaces.append (p := p) hlone.isSpaces_behind [], List.append_nil]
      have hend : stop [] = stop (ending ++ ['\n']) := by
        rw [← IgnoresSpaces.append (p := stop) hlone.isSpaces_behind [], List.append_nil]
      obtain ⟨_, hstop⟩ := hstop
      rw [hfail, hmore, manyTill, ← hend, ← hnone, hstop]
      cases hp : p [] with
      | ok => exact absurd rfl (Consuming.ne_nil hp)
      | mismatch => exact absurd hp (Decided.ne_mismatch _ _)
      | failure => exact .failure

end Loop

instance (room : Nat) : InStep false (recordBody room) (recordBody room) := by
  induction room with
  | zero => exact inferInstanceAs (InStep false (unrecognized "shallower nesting") (unrecognized "shallower nesting"))
  | succ room ih => exact manyTill_inStep ⟨_, rfl⟩

instance (room : Nat) : InStep false (recordDefinition room) (recordDefinition room) := by
  unfold recordDefinition
  infer_instance

instance (room : Nat) : InStep false (record room) (record room) := by
  unfold record
  infer_instance

instance (room : Nat) : InStep false (typedef room) (typedef room) := by
  unfold typedef
  infer_instance

instance (room : Nat) (body : Parser Scope) [InStep false body body] : InStepToMacro (Scope.itemWith room body) := by
  unfold Scope.itemWith
  infer_instance

instance (room : Nat) [InStep false (scope room true) (scope room true)] : InStepToMacro (scopeItem room) :=
  inferInstanceAs (InStepToMacro (Scope.itemWith room (scope room true)))

instance : InStep false (Scope.scopeEnd true) (Scope.scopeEnd true) := by
  unfold Scope.scopeEnd
  simp only [if_true]
  infer_instance

/-- At the end of the text, white space takes in the line feed. -/
instance : InStep false (Scope.scopeEnd false) (Scope.scopeEnd false) where
  outcome {before input input'} hinput := by
    have heof (text : Text) : Scope.scopeEnd false text = eof (text.dropWhile isSpace) := rfl
    rw [heof, heof]
    cases hinput with
    | done => exact .ok .done (.refl ..)
    | feed hwhole =>
      by_cases hrest : input.dropWhile isSpace = []
      · rw [List.dropWhile_append, hrest]
        exact .ok .done (.inr ⟨rfl, rfl⟩)
      · rw [dropWhile_lineFeed_of_ne hrest]
        obtain ⟨c, tail, htail⟩ := List.exists_cons_of_ne_nil hrest
        rw [htail]
        exact .mismatch

instance (room : Nat) : InStep false (scope room true) (scope room true) := by
  induction room with
  | zero => exact inferInstanceAs (InStep false (unrecognized "shallower nesting") (unrecognized "shallower nesting"))
  | succ room ih =>
    have hitems : InStep false (manyTill (scopeItem room) (Scope.scopeEnd true)) (manyTill (scopeItem room) (Scope.scopeEnd true)) :=
      manyTill_inStep ⟨_, rfl⟩
    unfold scope scopeItem at *
    infer_instance

/-! ### Headers -/

/-- The items of a header are read one behind the other, and then no more is left of it than a macro that stands alone. -/
def EndsInMacro (room : Nat) (items : List ScopeItem) (source : Text) : Prop := ∃ inner text ending, room = inner + 2 ∧
  IsLoneMacro ending text ∧
  ItemsUpTo (scopeItem (inner + 1)) (Scope.scopeEnd false) text (Header.withoutByteOrderMark source) items

theorem withoutByteOrderMark_lineFeed (source : Text) :
    Header.withoutByteOrderMark (source ++ ['\n']) = Header.withoutByteOrderMark source ++ ['\n'] := by
  cases source with
  | nil => rfl
  | cons c rest =>
    rw [List.cons_append, Header.withoutByteOrderMark, Header.withoutByteOrderMark]
    split <;> rfl

theorem header_succ (room : Nat) (source : Text) : header (room + 1) source = ((manyTill (scopeItem room) (Scope.scopeEnd false)
    (Header.withoutByteOrderMark source)).map Scope.ofItems).map Header.ofScope := by
  rw [header, map_apply, scope, map_apply]
  rfl

/-- Runs over a header come to the same, or its items are read up to a macro. -/
theorem header_outcome (room : Nat) {source : Text} (hsource : IsWhole source) :
    (header room source).InStep false true (header room (source ++ ['\n'])) ∨ ∃ items, EndsInMacro room items source := by
  have hinput : Ahead true (Header.withoutByteOrderMark source) (Header.withoutByteOrderMark source ++ ['\n']) :=
    .feed (hsource.suffix (Header.withoutByteOrderMark_suffix source))
  cases room with
  | zero => exact .inl .failure
  | succ room =>
    rw [header_succ, header_succ, withoutByteOrderMark_lineFeed]
    rcases manyTill_outcome (scopeItem room) (Scope.scopeEnd false) hinput with
      hsteps | ⟨text, ending, items, hlone, hitems, ⟨item, hfeed⟩, -⟩
    · exact .inl ((hsteps.map _).map _)
    · cases room with
      | zero => exact absurd hfeed (hlone.item_lineFeed_ne_ok _ item _)
      | succ inner => exact .inr ⟨items, inner, text, ending, rfl, hlone, hitems⟩

theorem Scope.ofItems_append_ignored (items : List ScopeItem) : ofItems (items ++ [.ignored]) = ofItems items := by
  rw [ofItems, List.foldr_append]
  rfl

/-- Without a line feed behind it, the macro ends the reading. With one, it declares nothing. -/
theorem header_endsInMacro {room : Nat} {items : List ScopeItem} {source : Text} (hsource : IsWhole source)
    (hends : EndsInMacro room items source) : (∃ trace, header room source = .failure trace) ∧
    header room (source ++ ['\n']) = .ok (Header.ofScope (Scope.ofItems items)) [] := by
  obtain ⟨inner, text, ending, rfl, hlone, hitems⟩ := hends
  have hwhole : IsWhole (Header.withoutByteOrderMark source) := hsource.suffix (Header.withoutByteOrderMark_suffix source)
  have hroom : 0 < inner + 1 := Nat.succ_pos inner
  have hstop (tail : Text) : Mismatches (Scope.scopeEnd false) (text ++ tail) := by
    have hhead : (text ++ tail).head? = text.head? := List.head?_append_of_ne_nil _ hlone.ne_nil
    obtain ⟨c, more, heq⟩ := List.exists_cons_of_ne_nil (List.append_ne_nil_of_left_ne_nil hlone.ne_nil tail)
    have hstarts : StartsToken (text ++ tail) := by
      rw [StartsToken, hhead]
      exact hlone.startsToken
    rw [heq] at hstarts ⊢
    exact .bind_of_ok (spaces0_of_startsToken hstarts) ⟨_, rfl⟩
  rw [header_succ, header_succ, withoutByteOrderMark_lineFeed]
  constructor
  · obtain ⟨trace, hfail⟩ := hitems.failure (by rw [← List.append_nil text]; exact hstop []) (hlone.item hroom _)
    rw [hfail]
    exact ⟨trace, rfl⟩
  · have hend : Scope.scopeEnd false (ending ++ ['\n']) = .ok () [] := by
      rcases hlone.1 with rfl | rfl <;> rfl
    have hlast : manyTill (scopeItem (inner + 1)) (Scope.scopeEnd false) (text ++ ['\n']) = .ok [.ignored] [] := by
      have hread : scopeItem (inner + 1) (text ++ ['\n']) = .ok .ignored (ending ++ ['\n']) := hlone.item_lineFeed hroom _
      rw [manyTill_of_ok (hstop _) hread (Consuming.lt hread), manyTill_of_stop hend]
      rfl
    rw [(hitems.lineFeed hlone.ne_nil hwhole).join hlast, ← Scope.ofItems_append_ignored items]
    rfl

/-- Whether a line feed is missing at the end of a header makes no difference, unless a macro stands alone in the last line:
where the items of the header come to a macro and no more is left, the header fails, and with the line feed it is what the
items in front of the macro make it. -/
theorem header_finalNewline {room : Nat} {source : Text} (hsource : IsWhole source) :
    ((¬∃ items, EndsInMacro room items source) →
      ∀ found rest, header room source = .ok found rest ↔ header room (source ++ ['\n']) = .ok found rest) ∧
    ∀ items, EndsInMacro room items source → (∃ trace, header room source = .failure trace) ∧
      header room (source ++ ['\n']) = .ok (Header.ofScope (Scope.ofItems items)) [] := by
  refine ⟨fun hnone found rest => ?_, fun items => header_endsInMacro hsource⟩
  rcases header_outcome room hsource with hsteps | hends
  · rcases hsteps.cases with ⟨_, _, _, _, hread, hread', -⟩ | ⟨_, _, hread, hread'⟩ | ⟨_, _, hread, hread'⟩
    · obtain rfl := header_ok hread
      obtain rfl := header_ok hread'
      rw [hread, hread']
    · rw [hread, hread']
      exact ⟨nofun, nofun⟩
    · rw [hread, hread']
      exact ⟨nofun, nofun⟩
  · exact absurd hends hnone

set_option maxRecDepth 20000 in
/-- A comment in the last line, and a macro. -/
theorem header_finalNewline_lastLines :
    (IsWhole "using A; // b".toList ∧ (¬∃ items, EndsInMacro nestingLimit items "using A; // b".toList) ∧
      ∃ found, header nestingLimit "using A; // b".toList = .ok found [] ∧ header nestingLimit "using A; // b\n".toList = .ok found []) ∧
    IsWhole "using A;\nFOO".toList ∧ EndsInMacro nestingLimit [.using ['A']] "using A;\nFOO".toList ∧
      (∃ trace, header nestingLimit "using A;\nFOO".toList = .failure trace) ∧
      header nestingLimit "using A;\nFOO\n".toList = .ok (Header.ofScope { usings := [['A']] }) [] := by
  constructor
  · have hsource : IsWhole "using A; // b".toList := by decide
    have hread : header nestingLimit "using A; // b".toList =
        .ok (Header.ofScope { usings := [['A']], comments := [['b']] }) [] := by cbv
    have hnone : ¬∃ items, EndsInMacro nestingLimit items "using A; // b".toList := by
      rintro ⟨items, hends⟩
      obtain ⟨⟨trace, hfail⟩, -⟩ := header_endsInMacro hsource hends
      cases hread.symm.trans hfail
    exact ⟨hsource, hnone, _, hread, ((header_finalNewline hsource).1 hnone _ _).1 hread⟩
  · have hsource : IsWhole "using A;\nFOO".toList := by decide
    have hlone : IsLoneMacro [] "FOO".toList := ⟨.inl rfl, "FOO".toList, [], by decide, by decide, by decide, nofun⟩
    have hitem : scopeItem 63 "using A;\nFOO".toList = .ok (.using ['A']) ("\n".toList ++ "FOO".toList) := by cbv
    have hends : EndsInMacro nestingLimit [.using ['A']] "using A;\nFOO".toList :=
      ⟨62, _, [], rfl, hlone, .item ⟨_, rfl⟩ hitem (.here (by decide))⟩
    exact ⟨hsource, hends, (header_finalNewline hsource).2 _ hends⟩

/-- A macro alone in the last line. -/
theorem header_finalNewline_macro : (∃ trace, header nestingLimit "FOO".toList = .failure trace) ∧
    header nestingLimit "FOO\n".toList = .ok (Header.ofScope {}) [] := by
  have hsource : IsWhole "FOO".toList := by decide
  have hlone : IsLoneMacro [] "FOO".toList := ⟨.inl rfl, "FOO".toList, [], by decide, by decide, by decide, nofun⟩
  have hnone : IsSpaces [] := nofun
  exact header_endsInMacro hsource ⟨62, _, [], rfl, hlone, .here hnone⟩

end HeaderOutline
