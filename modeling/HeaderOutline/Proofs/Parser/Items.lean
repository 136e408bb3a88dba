import HeaderOutline.Proofs.Lexeme
import HeaderOutline.Proofs.Parser.Committed
import HeaderOutline.Scope.Parser
/-!
# Items up to a place

A loop reads its items one behind the other. `ItemsUpTo` says that it comes to a place in this way: from there on it does
what it does from the beginning, behind the items that were read on the way.
-/

namespace HeaderOutline.Parser

variable {α β : Type} {p : Parser α} {stop : Parser β} {place input rest : Text} {items all later : List α}

/-! ### Loops -/

theorem manyTill_eq_ok [Consuming p] : manyTill p stop input = .ok items rest ↔
    (∃ b, stop input = .ok b rest) ∧ items = [] ∨ Mismatches stop input ∧ ∃ item behind others,
      p input = .ok item behind ∧ manyTill p stop behind = .ok others rest ∧ items = item :: others := by
  refine ⟨fun hloop => ?_, ?_⟩
  · unfold manyTill at hloop
    split at hloop
    · next b behind hstop =>
      cases hloop
      exact .inl ⟨⟨b, hstop⟩, rfl⟩
    · cases hloop
    · next trace hstop =>
      split at hloop
      · next item behind hitem =>
        rw [if_pos (Consuming.lt hitem)] at hloop
        obtain ⟨others, hothers, rfl⟩ := Outcome.map_eq_ok.1 hloop
        exact .inr ⟨⟨trace, hstop⟩, item, behind, others, hitem, hothers, rfl⟩
      · cases hloop
      · cases hloop
  · rintro (⟨⟨b, hstop⟩, rfl⟩ | ⟨hstop, item, behind, others, hitem, hothers, rfl⟩)
    · exact manyTill_of_stop hstop
    · rw [manyTill_of_ok hstop hitem (Consuming.lt hitem), hothers]
      rfl

/-- White space in front of what is read makes no difference. -/
class IgnoresSpaces (p : Parser α) : Prop where
  append : ∀ {spaces}, IsSpaces spaces → ∀ input, p (spaces ++ input) = p input

instance {q : Parser α} : IgnoresSpaces (spaces0 >>= fun _ => q) where
  append hspaces _ := congrArg q (List.dropWhile_append_of_pos hspaces)

theorem manyTill_spaces [IgnoresSpaces p] [IgnoresSpaces stop] [Consuming p] {spaces : Text} (hspaces : IsSpaces spaces) :
    manyTill p stop (spaces ++ input) = .ok items rest ↔ manyTill p stop input = .ok items rest := by
  rw [manyTill_eq_ok, manyTill_eq_ok, Mismatches, Mismatches, IgnoresSpaces.append (p := p) hspaces,
    IgnoresSpaces.append (p := stop) hspaces]

/-! ### Places -/

/-- The items of a loop that begins here come to the place. -/
inductive ItemsUpTo (p : Parser α) (stop : Parser β) (place : Text) : Text → List α → Prop
  | here {spaces : Text} (hspaces : IsSpaces spaces) : ItemsUpTo p stop place (spaces ++ place) []
  | item {input behind : Text} {item : α} {items : List α} (hend : Mismatches stop input)
      (hitem : p input = .ok item behind) (hbehind : ItemsUpTo p stop place behind items) :
      ItemsUpTo p stop place input (item :: items)

namespace ItemsUpTo

theorem length_le [Consuming p] (hreads : ItemsUpTo p stop place input items) : place.length ≤ input.length := by
  induction hreads with
  | here => simp
  | item _ hitem _ ih => exact Nat.le_trans ih (Nat.le_of_lt (Consuming.lt hitem))

/-- No item is read between the place and itself. -/
theorem eq_nil [IgnoresSpaces p] [Consuming p] {spaces : Text} (hspaces : IsSpaces spaces)
    (hreads : ItemsUpTo p stop place (spaces ++ place) items) : items = [] := by
  generalize hinput : spaces ++ place = input at hreads
  cases hreads with
  | here => rfl
  | item _ hitem hbehind =>
    rw [← hinput, IgnoresSpaces.append (p := p) hspaces] at hitem
    exact absurd hbehind.length_le (Nat.not_le.2 (Consuming.lt hitem))

section Loop

variable [IgnoresSpaces p] [IgnoresSpaces stop] [Consuming p]

theorem split (hreads : ItemsUpTo p stop place input items) (hloop : manyTill p stop input = .ok all rest) :
    ∃ later, all = items ++ later ∧ manyTill p stop place = .ok later rest := by
  induction hreads generalizing all with
  | here hspaces => exact ⟨all, rfl, (manyTill_spaces hspaces).1 hloop⟩
  | item hend hitem _ ih =>
    rcases manyTill_eq_ok.1 hloop with ⟨⟨b, hstop⟩, -⟩ | ⟨-, item, behind, others, hread, hothers, rfl⟩
    · exact absurd hstop hend.ne_ok
    · rw [hitem] at hread
      cases hread
      obtain ⟨later, rfl, hlater⟩ := ih hothers
      exact ⟨later, rfl, hlater⟩

theorem join (hreads : ItemsUpTo p stop place input items) (hloop : manyTill p stop place = .ok later rest) :
    manyTill p stop input = .ok (items ++ later) rest := by
  induction hreads with
  | here hspaces => exact (manyTill_spaces hspaces).2 hloop
  | item hend hitem _ ih => exact manyTill_eq_ok.2 (.inr ⟨hend, _, _, _, hitem, ih, rfl⟩)

/-- Where no item can be read, the loop fails. -/
theorem failure (hreads : ItemsUpTo p stop place input items)
    (hend : Mismatches stop place) (hitem : ∃ trace, p place = .failure trace) :
    ∃ trace, manyTill p stop input = .failure trace := by
  induction hreads with
  | @here spaces hspaces =>
    obtain ⟨_, hend⟩ := hend
    obtain ⟨trace, hitem⟩ := hitem
    refine ⟨trace, ?_⟩
    rw [manyTill, IgnoresSpaces.append (p := stop) hspaces, IgnoresSpaces.append (p := p) hspaces, hend, hitem]
  | item hstop hread _ ih =>
    obtain ⟨trace, hfail⟩ := ih
    refine ⟨trace, ?_⟩
    rw [manyTill_of_ok hstop hread (Consuming.lt hread), hfail]
    rfl

end Loop

end ItemsUpTo

end HeaderOutline.Parser

namespace HeaderOutline

open HeaderOutline.Parser

/-! ### Bodies -/

instance (room : Nat) (definition : Parser Record) : IgnoresSpaces (recordItemWith room definition) := by
  unfold recordItemWith
  infer_instance

instance (room : Nat) : IgnoresSpaces (recordItem room) := inferInstanceAs (IgnoresSpaces (recordItemWith room (recordDefinition room)))

instance (room : Nat) (body : Parser Scope) : IgnoresSpaces (Scope.itemWith room body) := by
  unfold Scope.itemWith
  infer_instance

instance (room : Nat) : IgnoresSpaces (scopeItem room) := inferInstanceAs (IgnoresSpaces (Scope.itemWith room (scope room true)))

instance (isBlock : Bool) : IgnoresSpaces (Scope.scopeEnd isBlock) := by
  unfold Scope.scopeEnd
  infer_instance

end HeaderOutline
