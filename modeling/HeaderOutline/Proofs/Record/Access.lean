import Mathlib.Data.List.Infix
import HeaderOutline.Proofs.Assembly
import HeaderOutline.Proofs.Comment.Body
/-!
# Access sections

A class body is read item by item. The last label in front of an item is the access that it stands under, or the default
of the kind of class where there is none. Each list of the class holds, for each access, what the items under it add, in
the order of the text.
-/

namespace HeaderOutline

open HeaderOutline.Parser

set_option synthInstance.maxSize 1024

/-! ### Items under an access -/

namespace RecordItem

def label? : RecordItem → Option Access
  | .access label => some label
  | _ => none

/-- The last label among the items. -/
def lastLabel (default : Access) (items : List RecordItem) : Access := (items.filterMap label?).getLast?.getD default

/-- The items with those in front of them. -/
def withFronts (items : List RecordItem) : List (List RecordItem × RecordItem) := items.inits.zip items

/-- The items that stand under the access, in their order. -/
def under (access default : Access) (items : List RecordItem) : List RecordItem :=
  ((withFronts items).filter fun (front, _) => lastLabel default front = access).map Prod.snd

theorem lastLabel_cons (default : Access) (item : RecordItem) (items : List RecordItem) :
    lastLabel default (item :: items) = lastLabel (item.accessBehind default) items := by
  cases item with
  | access label =>
    have hlabels : (label :: items.filterMap label?).getLast? = some ((items.filterMap label?).getLast?.getD label) :=
      List.getLast?_cons
    exact congrArg (Option.getD · default) hlabels
  | _ => rfl

theorem withFronts_cons (item : RecordItem) (items : List RecordItem) :
    withFronts (item :: items) = ([], item) :: (withFronts items).map (Prod.map (item :: ·) id) := by
  rw [withFronts, List.inits_cons, List.zip_cons_cons, List.zip_map_left, withFronts]

/-- An item stands under the access in front of it, and those behind it as in a body that begins under the access behind
it. -/
theorem under_cons (access default : Access) (item : RecordItem) (items : List RecordItem) :
    under access default (item :: items) =
      (if default = access then [item] else []) ++ under access (item.accessBehind default) items := by
  have hbehind : ((withFronts items).map (Prod.map (item :: ·) id)).filter
      (fun (front, _) => lastLabel default front = access) =
      ((withFronts items).filter fun (front, _) => lastLabel (item.accessBehind default) front = access).map
        (Prod.map (item :: ·) id) := by
    rw [List.filter_map]
    congr 2
    funext ⟨front, other⟩
    simp only [Function.comp_apply, Prod.map_apply, lastLabel_cons]
  have hfirst : lastLabel default [] = default := rfl
  rw [under, withFronts_cons, List.filter_cons, hbehind]
  by_cases hdefault : default = access
  · subst hdefault
    simp [hfirst, under]
  · simp [hfirst, hdefault, under]

/-! ### What an item adds to each list -/

def methods? : RecordItem → Option (List FunctionDecl)
  | .method declared => some [declared]
  | _ => none

def members? : RecordItem → Option (List Variable)
  | .members declared => some declared
  | _ => none

/-- A typedef adds the class that it defines in place. -/
def records? : RecordItem → Option (List Record)
  | .record inner => some [inner]
  | .typedef statement => statement.record.map fun inner => [inner]
  | _ => none

/-- A typedef adds the enumeration that it defines in place. -/
def enumerations? : RecordItem → Option (List Enumeration)
  | .enumeration inner => some [inner]
  | .typedef statement => statement.enumeration.map fun inner => [inner]
  | _ => none

/-- A typedef adds its aliases, and counts even if it has none. -/
def aliases? : RecordItem → Option (List Alias)
  | .usingAlias declared => some [declared]
  | .typedef statement => some statement.aliases
  | _ => none

def friend? : RecordItem → Option Text
  | .friend name => some name
  | _ => none

end RecordItem

open RecordItem (under)

namespace ByAccess

variable {α : Type}

/-- One list of all that is added, if anything adds to it. -/
def joined : List (List α) → Option (List α)
  | [] => none
  | list :: lists => some (list ++ lists.flatten)

/-- What becomes of a list, which may not be there yet, when others are filed behind it. -/
def extended (list? : Option (List α)) : List (List α) → Option (List α)
  | [] => list?
  | lists => some (list?.getD [] ++ lists.flatten)

theorem extended_append (list? : Option (List α)) (lists others : List (List α)) :
    extended list? (lists ++ others) = extended (extended list? lists) others := by
  cases lists <;> cases others <;> simp [extended]

theorem extended_none (lists : List (List α)) : extended none lists = joined lists := by
  cases lists <;> rfl

/-- For each access, what the items under it add stands in one list, which is there exactly if one of them adds to it. -/
structure Lists (lists : ByAccess α) (added? : RecordItem → Option (List α)) (default : Access)
    (items : List RecordItem) : Prop where
  get? : ∀ access, lists.get? access = joined ((under access default items).filterMap added?)
  isSome_iff : ∀ access, (lists.get? access).isSome ↔ ∃ item ∈ under access default items, (added? item).isSome

theorem isSome_joined_iff (lists : List (List α)) : (joined lists).isSome ↔ lists ≠ [] := by
  cases lists <;> simp [joined]

theorem lists_of_get? {lists : ByAccess α} {added? : RecordItem → Option (List α)} {default : Access}
    {items : List RecordItem}
    (hget : ∀ access, lists.get? access = joined ((under access default items).filterMap added?)) :
    lists.Lists added? default items where
  get? := hget
  isSome_iff access := by
    rw [hget, isSome_joined_iff, ne_eq, List.filterMap_eq_nil_iff]
    simp [Option.isSome_iff_ne_none]

end ByAccess

namespace Record

/-! ### Filing -/

section Filing

variable {α : Type} {lists : Record → ByAccess α} {added? : RecordItem → Option (List α)}

/-- Filing an item appends what it adds under the current access, and nothing if it adds nothing. -/
def Files (lists : Record → ByAccess α) (added? : RecordItem → Option (List α)) : Prop :=
  ∀ record access item, lists (addItem record access item) =
    match added? item with
    | some list => (lists record).append access list
    | none => lists record

theorem get?_addItem (hfiles : Files lists added?) (record : Record) (access default : Access) (item : RecordItem) :
    (lists (record.addItem default item)).get? access =
      ByAccess.extended ((lists record).get? access) ((if default = access then [item] else []).filterMap added?) := by
  rw [hfiles]
  by_cases haccess : default = access
  · subst haccess
    rw [if_pos rfl, List.filterMap_cons]
    cases added? item with
    | none => rfl
    | some list => simp [ByAccess.extended]
  · rw [if_neg haccess]
    cases added? item with
    | none => rfl
    | some list => exact ByAccess.get?_append_of_ne (Ne.symm haccess)

theorem get?_addItems (hfiles : Files lists added?) (record : Record) (access default : Access) (items : List RecordItem) :
    (lists (record.addItems default items)).get? access =
      ByAccess.extended ((lists record).get? access) ((under access default items).filterMap added?) := by
  induction items generalizing record default with
  | nil => rfl
  | cons item items ih =>
    rw [addItems_cons, ih, get?_addItem hfiles, RecordItem.under_cons, List.filterMap_append, ByAccess.extended_append]

end Filing

theorem files_methods : Files methods RecordItem.methods? := by
  rintro record access (_ | _ | _ | _ | _ | _ | ⟨_, _ | _, _ | _⟩ | _ | _) <;> rfl

theorem files_members : Files members RecordItem.members? := by
  rintro record access (_ | _ | _ | _ | _ | _ | ⟨_, _ | _, _ | _⟩ | _ | _) <;> rfl

theorem files_records : Files records RecordItem.records? := by
  rintro record access (_ | _ | _ | _ | _ | _ | ⟨_, _ | _, _ | _⟩ | _ | _) <;> rfl

theorem files_enumerations : Files enumerations RecordItem.enumerations? := by
  rintro record access (_ | _ | _ | _ | _ | _ | ⟨_, _ | _, _ | _⟩ | _ | _) <;> rfl

theorem files_aliases : Files aliases RecordItem.aliases? := by
  rintro record access (_ | _ | _ | _ | _ | _ | ⟨_, _ | _, _ | _⟩ | _ | _) <;> rfl

theorem friends_addItem (record : Record) (access : Access) (item : RecordItem) :
    (record.addItem access item).friends = record.friends ++ item.friend?.toList := by
  cases item <;> simp [addItem, RecordItem.friend?]

theorem friends_addItems (record : Record) (access : Access) (items : List RecordItem) :
    (record.addItems access items).friends = record.friends ++ items.filterMap RecordItem.friend? := by
  induction items generalizing record access with
  | nil => exact (List.append_nil _).symm
  | cons item items ih =>
    rw [addItems_cons, ih, friends_addItem, List.append_assoc, List.filterMap_cons]
    cases item.friend? <;> rfl

/-- The class lists the items of its body: for each access those under it, and all friends. -/
structure ListsItems (record : Record) (items : List RecordItem) : Prop where
  methods : record.methods.Lists RecordItem.methods? record.kind.defaultAccess items
  members : record.members.Lists RecordItem.members? record.kind.defaultAccess items
  records : record.records.Lists RecordItem.records? record.kind.defaultAccess items
  enumerations : record.enumerations.Lists RecordItem.enumerations? record.kind.defaultAccess items
  aliases : record.aliases.Lists RecordItem.aliases? record.kind.defaultAccess items
  friends : record.friends = items.filterMap RecordItem.friend?

/-- Nothing is filed yet. -/
structure IsBare (record : Record) : Prop where
  methods : record.methods = {}
  members : record.members = {}
  records : record.records = {}
  enumerations : record.enumerations = {}
  aliases : record.aliases = {}
  friends : record.friends = []

theorem isBare_of_recordHead {room : Nat} {input rest : Text} {head : Record} (hhead : recordHead room input = .ok head rest) :
    head.IsBare := by
  -- Ten parts, and the mark of a forward declaration for a class with a name.
  iterate 10 obtain ⟨_, _, -, hhead⟩ := bind_eq_ok.1 hhead
  split at hhead <;>
  · obtain ⟨_, _, -, hhead⟩ := bind_eq_ok.1 hhead
    cases hhead
    exact ⟨rfl, rfl, rfl, rfl, rfl, rfl⟩

theorem kind_addItem (record : Record) (access : Access) (item : RecordItem) : (record.addItem access item).kind = record.kind := by
  cases item <;> rfl

theorem kind_addItems (record : Record) (access : Access) (items : List RecordItem) :
    (record.addItems access items).kind = record.kind := by
  induction items generalizing record access with
  | nil => rfl
  | cons item items ih => rw [addItems_cons, ih, kind_addItem]

theorem lists_addItems {α : Type} {lists : Record → ByAccess α} {added? : RecordItem → Option (List α)}
    (hfiles : Files lists added?) {record : Record} (hbare : lists record = {}) (default : Access) (items : List RecordItem) :
    (lists (record.addItems default items)).Lists added? default items := by
  refine ByAccess.lists_of_get? fun access => ?_
  rw [get?_addItems hfiles, hbare, ← ByAccess.extended_none]
  cases access <;> rfl

theorem IsBare.listsItems {record : Record} (hbare : record.IsBare) (items : List RecordItem) :
    (record.addItems record.kind.defaultAccess items).ListsItems items := by
  constructor <;> try rw [kind_addItems]
  · exact lists_addItems files_methods hbare.methods _ items
  · exact lists_addItems files_members hbare.members _ items
  · exact lists_addItems files_records hbare.records _ items
  · exact lists_addItems files_enumerations hbare.enumerations _ items
  · exact lists_addItems files_aliases hbare.aliases _ items
  · rw [friends_addItems, hbare.friends, List.nil_append]

end Record

/-! ### Reading a body -/

namespace RecordItem

/-- An item with its text and the white space in front of it. -/
structure Reading where
  space : Text
  text : Text
  item : RecordItem

def texts : List Reading → Text
  | [] => []
  | reading :: readings => reading.space ++ (reading.text ++ texts readings)

/-- The items that are read one behind the other in front of `rest`, each where the one before it ends. -/
inductive ReadAs (room : Nat) : List Reading → (rest : Text) → Prop where
  | nil {rest : Text} : ReadAs room [] rest
  | cons {space text rest : Text} {item : RecordItem} {readings : List Reading} (hspace : IsSpaces space)
      (htext : Scope.Opens true text)
      (hread : recordItem room (space ++ (text ++ (texts readings ++ rest))) = .ok item (texts readings ++ rest))
      (htail : ReadAs room readings rest) : ReadAs room (⟨space, text, item⟩ :: readings) rest

variable {room : Nat} {input mid rest : Text} {item : RecordItem} {items : List RecordItem}

theorem recordItem_dropWhile (room : Nat) (input : Text) : recordItem room (input.dropWhile isSpace) = recordItem room input := by
  unfold recordItem recordItemWith
  rw [bind_apply, bind_apply, spaces0, Parser.takeWhile, Parser.takeWhile, List.dropWhile_idempotent]
  rfl

theorem exists_text_of_recordItem (hitem : recordItem room input = .ok item mid) :
    ∃ text, text ≠ [] ∧ input.dropWhile isSpace = text ++ mid := by
  rw [← recordItem_dropWhile] at hitem
  obtain ⟨text, htext⟩ := Bounded.suffix hitem
  refine ⟨text, ?_, htext.symm⟩
  rintro rfl
  have hlt := Consuming.lt hitem
  rw [← htext] at hlt
  exact Nat.lt_irrefl _ hlt

theorem opens_of_mismatches (hend : Mismatches recordEnd input) {text : Text} (htext : text ≠ [])
    (hinput : input.dropWhile isSpace = text ++ mid) : Scope.Opens true text := by
  have hstop : Mismatches (Scope.scopeEnd true) input := by
    obtain ⟨trace, hend⟩ := hend
    have hchar : char '\x7d' (input.dropWhile isSpace) = .mismatch trace := hend
    rw [Mismatches, Scope.scopeEnd_true, hchar]
    exact ⟨trace, rfl⟩
  exact Scope.opens_of_not_ended hstop htext hinput

/-- A body is a list of items with white space between them, up to its closing brace. -/
theorem exists_readings_of_recordBody (hbody : recordBody (room + 1) input = .ok items rest) :
    ∃ readings space, input = texts readings ++ (space ++ '\x7d' :: rest) ∧ IsSpaces space ∧
      ReadAs room readings (space ++ '\x7d' :: rest) ∧ readings.map Reading.item = items := by
  have hinput (input : Text) : input.takeWhile isSpace ++ input.dropWhile isSpace = input := List.takeWhile_append_dropWhile
  induction items generalizing input with
  | nil =>
    obtain ⟨hend, -⟩ | ⟨-, _, _, _, -, -, hnil⟩ := recordBody_eq_ok.1 hbody
    · have hchar : char '\x7d' (input.dropWhile isSpace) = .ok '\x7d' rest := hend
      refine ⟨[], input.takeWhile isSpace, ?_, isSpaces_takeWhile input, .nil, rfl⟩
      rw [texts, List.nil_append, ← (char_eq_ok.1 hchar).2, hinput]
    · cases hnil
  | cons item items ih =>
    obtain ⟨-, hcons⟩ | ⟨hend, _, behind, _, hitem, hothers, hcons⟩ := recordBody_eq_ok.1 hbody
    · cases hcons
    cases hcons
    obtain ⟨readings, space, rfl, hspace, hreadings, rfl⟩ := ih hothers
    obtain ⟨text, htext, hdrop⟩ := exists_text_of_recordItem hitem
    have hplace : input.takeWhile isSpace ++ (text ++ (texts readings ++ (space ++ '\x7d' :: rest))) = input := by
      rw [← hdrop, hinput]
    refine ⟨⟨input.takeWhile isSpace, text, item⟩ :: readings, space, ?_, hspace, ?_, rfl⟩
    · rw [texts, List.append_assoc, List.append_assoc, hplace]
    · refine .cons (isSpaces_takeWhile input) (opens_of_mismatches hend htext hdrop) ?_ hreadings
      rw [hplace]
      exact hitem

end RecordItem

/-- Labels in a class and in a class inside it, a typedef and a friend. -/
def sectionsText : Text :=
  "struct A \x7bint a; private: class B \x7bpublic: int b;\x7d; int c; typedef int T; public: friend class C; int d;\x7d".toList

end HeaderOutline
