import Mathlib
import HeaderOutline.Proofs.Comment.Front
/-!
# Comment lines in a class

A class is the same whether or not a comment line stands in front of one of its items, up to the comments of
what it declares: every item is filed under the same access. For that the text in front has to be read as
before, and the item must not be a label, an assertion or a friend that could be read as a function or a variable.
`record_commentLine_signals` shows what becomes of a label otherwise. A text in front that is closed is read as before; one
that ends behind a line comment is read together with the comment line, so that the item itself is read as before.
-/

namespace HeaderOutline

open HeaderOutline.Parser

variable {room : Nat} {input input' front place rest line : Text} {head : Record} {items later : List RecordItem}

/-! ### Filing -/

namespace Record

/-- The class without the comments of what it declares. -/
def itemsUncommented (record : Record) : Record :=
  { record with
    methods := record.methods.map (FunctionDecl.withComment none)
    members := record.members.map (Variable.withComment none)
    records := record.records.map (Record.withComment none)
    enumerations := record.enumerations.map (Enumeration.withComment none)
    aliases := record.aliases.map (Alias.withComment none) }

theorem itemsUncommented_addItem (record : Record) (access : Access) (item : RecordItem) :
    (record.addItem access item).itemsUncommented = record.itemsUncommented.addItem access item.uncommented := by
  cases item with
  | typedef statement =>
    obtain ⟨aliases, inner, enumeration⟩ := statement
    cases inner <;> cases enumeration <;>
      simp [addItem, itemsUncommented, RecordItem.uncommented, Typedef.uncommented, ByAccess.map_append]
  | method declared => simp [addItem, itemsUncommented, RecordItem.uncommented, ByAccess.map_append]
  | members declared => simp [addItem, itemsUncommented, RecordItem.uncommented, ByAccess.map_append]
  | record inner => simp [addItem, itemsUncommented, RecordItem.uncommented, ByAccess.map_append]
  | enumeration inner => simp [addItem, itemsUncommented, RecordItem.uncommented, ByAccess.map_append]
  | usingAlias declared => simp [addItem, itemsUncommented, RecordItem.uncommented, ByAccess.map_append]
  | ignored => rfl
  | access label => rfl
  | friend name => rfl

theorem accessBehind_uncommented (access : Access) (item : RecordItem) :
    item.uncommented.accessBehind access = item.accessBehind access := by
  cases item <;> rfl

/-- Whether a comment is attached to an item makes no difference to where the item is filed. -/
theorem itemsUncommented_addItems (record : Record) (access : Access) (items : List RecordItem) :
    (record.addItems access items).itemsUncommented =
      record.itemsUncommented.addItems access (items.map RecordItem.uncommented) := by
  induction items generalizing record access with
  | nil => rfl
  | cons item items ih =>
    rw [addItems_cons, ih, itemsUncommented_addItem, List.map_cons, addItems_cons, accessBehind_uncommented]

/-- The items behind the same items in front make the same class, if they differ in comments and one that is ignored. -/
theorem itemsUncommented_addItems_append (record : Record) (access : Access) (items : List RecordItem)
    {others : List RecordItem}
    (hlater : others.map RecordItem.uncommented = later.map RecordItem.uncommented ∨ others = .ignored :: later) :
    (record.addItems access (items ++ others)).itemsUncommented =
      (record.addItems access (items ++ later)).itemsUncommented := by
  induction items generalizing record access with
  | nil =>
    rcases hlater with hlater | rfl
    · rw [List.nil_append, List.nil_append, itemsUncommented_addItems, itemsUncommented_addItems, hlater]
    · rfl
  | cons item items ih =>
    rw [List.cons_append, List.cons_append, addItems_cons, addItems_cons, ih]

end Record

/-! ### Comment lines -/

/-- A class statement is the same where its definition is, up to the comments of what is declared. -/
theorem recordWith_of_definition {definition : Parser Record} {text other mid : Text} {first second found : Record}
    (hfirst : definition text = .ok first mid) (hsecond : definition other = .ok second mid)
    (halike : second.itemsUncommented = first.itemsUncommented)
    (hrecord : recordWith room definition text = .ok found rest) :
    ∃ last, recordWith room definition other = .ok last rest ∧ last.itemsUncommented = found.itemsUncommented := by
  have hforward : second.isForwardDeclaration = first.isForwardDeclaration := by
    change second.itemsUncommented.isForwardDeclaration = first.itemsUncommented.isForwardDeclaration
    rw [halike]
  have hinstances (names : List Text) (record : Record) : ({ record with instances := names } : Record).itemsUncommented =
      { record.itemsUncommented with instances := names } := rfl
  rw [recordWith, bind_of_ok hfirst] at hrecord
  rw [recordWith, bind_of_ok hsecond]
  split at hrecord
  · next hflag =>
    obtain ⟨_, last, hsemicolon, hfound⟩ := bind_eq_ok.1 hrecord
    cases hfound
    rw [if_pos (hforward.trans hflag), bind_of_ok hsemicolon]
    exact ⟨second, rfl, halike⟩
  · next hflag =>
    obtain ⟨names, behind, hnames, hrecord⟩ := bind_eq_ok.1 hrecord
    obtain ⟨_, last, hsemicolon, hfound⟩ := bind_eq_ok.1 hrecord
    cases hfound
    rw [if_neg (hforward ▸ hflag), bind_of_ok hnames, bind_of_ok hsemicolon]
    exact ⟨_, rfl, by rw [hinstances, hinstances, halike]⟩

/-- Texts that are read up to the item, with the comment line in front of the item in the second one or within what is read. -/
theorem recordDefinition_commentLine {text text' mid : Text} (hline : ∀ c ∈ line, isInLine c = true)
    (hplace : ∀ c ∈ place.head?, isSpace c = false) (hplain : RecordReadsUpTo room place head items text)
    (hcommented : RecordItem.Unambiguous room place ∧ RecordReadsUpTo room (commentLine line ++ place) head items text' ∨
      RecordReadsUpTo room place head items text')
    {defined : Record} (hdefined : recordDefinition (room + 1) text = .ok defined mid) :
    ∃ other, recordDefinition (room + 1) text' = .ok other mid ∧ other.itemsUncommented = defined.itemsUncommented := by
  obtain ⟨later, hlater, rfl⟩ := hplain.split hdefined
  rcases hcommented with ⟨hsettled, hcommented⟩ | hcommented
  · obtain ⟨others, hothers, halike⟩ := recordBody_commentLine hline hplace hsettled hlater
    exact ⟨_, hcommented.join hothers, Record.itemsUncommented_addItems_append head _ items halike⟩
  · exact ⟨_, hcommented.join hlater, rfl⟩

/-- A class that is accepted is accepted with a comment line in front of an item as well, with the same rest, and
declares the same under the same access. With the comment line the text in front is read up to this line, or together with
it up to the item. -/
theorem record_commentLine (hline : ∀ c ∈ line, isInLine c = true) (hplace : ∀ c ∈ place.head?, isSpace c = false)
    (hplain : RecordReadsUpTo room place head items (front ++ place))
    (hcommented : RecordItem.Unambiguous room place ∧
        RecordReadsUpTo room (commentLine line ++ place) head items (front ++ (commentLine line ++ place)) ∨
      RecordReadsUpTo room place head items (front ++ (commentLine line ++ place)))
    {found : Record} (hrecord : record (room + 1) (front ++ place) = .ok found rest) :
    ∃ other, record (room + 1) (front ++ (commentLine line ++ place)) = .ok other rest ∧
      other.itemsUncommented = found.itemsUncommented := by
  obtain ⟨defined, mid, hdefined, -⟩ := bind_eq_ok.1 hrecord
  obtain ⟨other, hother, halike⟩ := recordDefinition_commentLine hline hplace hplain hcommented hdefined
  exact recordWith_of_definition hdefined hother halike hrecord

set_option maxRecDepth 20000 in
/-- A comment line between an item and a label. -/
theorem record_commentLine_public : ∃ found other,
    record nestingLimit ("class A\x7b; ".toList ++ "public:int x;\x7d;".toList) = .ok found [] ∧
    record nestingLimit ("class A\x7b; ".toList ++ (commentLine ['c'] ++ "public:int x;\x7d;".toList)) = .ok other [] ∧
    other.itemsUncommented = found.itemsUncommented := by
  let head : Record :=
    { name := some ['A'], kind := .isClass, api := none, templateParams := [], specialization := none, bases := [],
      isFinal := false, isForwardDeclaration := false, comment := none }
  have hsettled : RecordItem.Unambiguous 63 "public:int x;\x7d;".toList := RecordItem.unambiguous_of_ne (by decide)
  have hplain : RecordReadsUpTo 63 "public:int x;\x7d;".toList head [.ignored]
      ("class A\x7b; ".toList ++ "public:int x;\x7d;".toList) := by
    have hhead : recordHead 64 ("class A\x7b; ".toList ++ "public:int x;\x7d;".toList) =
        .ok head ("\x7b; ".toList ++ "public:int x;\x7d;".toList) := by cbv
    exact ⟨_, _, hhead, rfl, afterGap_char (gapEnd_cons (by decide) (by decide) _),
      .item ⟨_, rfl⟩ (firstOf_of_ok rfl) (.here isSpaces_one)⟩
  have hcommented : RecordReadsUpTo 63 (commentLine ['c'] ++ "public:int x;\x7d;".toList) head [.ignored]
      ("class A\x7b; ".toList ++ (commentLine ['c'] ++ "public:int x;\x7d;".toList)) := by
    have hopen : IsClosed true "class A".toList := by decide
    have hclosed : IsClosed true [] := by decide
    exact hplain.of_closed hopen (by decide) ((ItemsAgree.of_isSpaces isSpaces_one _ _).behind_closed hclosed)
  obtain ⟨found, hrecord, -⟩ := Outcome.whole?_eq_some.1 (show (record nestingLimit
    ("class A\x7b; ".toList ++ "public:int x;\x7d;".toList)).whole? (fun _ => ()) = some () by decide +kernel)
  have hplace : ∀ c ∈ "public:int x;\x7d;".toList.head?, isSpace c = false := by
    rintro c ⟨⟩
    decide
  obtain ⟨other, hother, halike⟩ := record_commentLine (by decide) hplace hplain (.inl ⟨hsettled, hcommented⟩) hrecord
  exact ⟨found, other, hrecord, hother, halike⟩

/-- With a comment line in front of it, the label `signals` is read as the type of a bit-field that goes on to the next
semicolon. -/
theorem record_commentLine_signals : ∃ found other,
    record nestingLimit "class A \x7b\nsignals:\n void f();\n\x7d;".toList = .ok found [] ∧
    record nestingLimit "class A \x7b\n// c\nsignals:\n void f();\n\x7d;".toList = .ok other [] ∧
    other.itemsUncommented ≠ found.itemsUncommented := by
  let methods (record : Record) : Option (List Text) := (record.itemsUncommented.methods.get? .isPublic).map (List.map (·.name))
  obtain ⟨found, hrecord, hfound⟩ := Outcome.whole?_eq_some.1 (show (record nestingLimit
    "class A \x7b\nsignals:\n void f();\n\x7d;".toList).whole? methods = some (some [['f']]) by decide +kernel)
  obtain ⟨other, hcommented, hother⟩ := Outcome.whole?_eq_some.1 (show (record nestingLimit
    "class A \x7b\n// c\nsignals:\n void f();\n\x7d;".toList).whole? methods = some none by decide +kernel)
  refine ⟨found, other, hrecord, hcommented, fun heq => ?_⟩
  have hmethods : methods other = methods found := by
    simp only [methods, heq]
  rw [hfound, hother] at hmethods
  cases hmethods

/-- With a closed text in front of the item, or a line comment at the end of a closed text, no more is asked of this text than
that it is read up to the item. -/
theorem record_commentLine_closed {text : Text} (hline : ∀ c ∈ line, isInLine c = true)
    (hplace : ∀ c ∈ place.head?, isSpace c = false) (hclosed : IsClosed true text) (hbrace : '\x7b' ∉ text)
    (hagree : RecordItem.Unambiguous room place ∧ ItemsAgree room place (commentLine line ++ place) input input' ∨
      ItemsAgree room place place input input')
    (hplain : RecordReadsUpTo room place head items (text ++ '\x7b' :: input))
    {found : Record} (hrecord : record (room + 1) (text ++ '\x7b' :: input) = .ok found rest) :
    ∃ other, record (room + 1) (text ++ '\x7b' :: input') = .ok other rest ∧
      other.itemsUncommented = found.itemsUncommented := by
  obtain ⟨defined, mid, hdefined, -⟩ := bind_eq_ok.1 hrecord
  have hcommented := hagree.imp (And.imp_right fun hagree => hplain.of_closed hclosed hbrace hagree) (hplain.of_closed hclosed hbrace)
  obtain ⟨other, hother, halike⟩ := recordDefinition_commentLine hline hplace hplain hcommented hdefined
  exact recordWith_of_definition hdefined hother halike hrecord

end HeaderOutline
