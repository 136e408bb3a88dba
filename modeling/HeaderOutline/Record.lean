import HeaderOutline.Alias
import HeaderOutline.Directive
import HeaderOutline.Enumeration
import HeaderOutline.Function
import HeaderOutline.Variable
/-!
# Classes, structs and unions

A record lists its members by access. Its body is a sequence of items; `Record.addItems` files them, each
under the access that holds where it stands.
-/

namespace HeaderOutline

inductive Access where
  | isPublic | isProtected | isPrivate
  deriving DecidableEq, Repr, Inhabited

/-- The access that a word stands for: public for any word but the other two. -/
def Access.ofWord (word : Text) : Access :=
  if word = "private".toList then .isPrivate
  else if word = "protected".toList then .isProtected
  else .isPublic

def Access.word : Access → Text
  | .isPublic => "public".toList
  | .isProtected => "protected".toList
  | .isPrivate => "private".toList

/-- Lists of items by access. An access under which nothing was filed has no list. -/
structure ByAccess (α : Type) where
  public? : Option (List α) := none
  protected? : Option (List α) := none
  private? : Option (List α) := none
  deriving BEq, Repr, Inhabited

namespace ByAccess

variable {α : Type}

def get? (lists : ByAccess α) : Access → Option (List α)
  | .isPublic => lists.public?
  | .isProtected => lists.protected?
  | .isPrivate => lists.private?

/-- Files the items behind those that are there. -/
def append (lists : ByAccess α) (access : Access) (items : List α) : ByAccess α :=
  let appended := some ((lists.get? access).getD [] ++ items)
  match access with
  | .isPublic => { lists with public? := appended }
  | .isProtected => { lists with protected? := appended }
  | .isPrivate => { lists with private? := appended }

/-- The lists that are there: public before protected before private. -/
def entries (lists : ByAccess α) : List (Access × List α) :=
  [Access.isPublic, Access.isProtected, Access.isPrivate].filterMap fun access =>
    (lists.get? access).map fun items => (access, items)

@[simp] theorem get?_append_self (lists : ByAccess α) (access : Access) (items : List α) :
    (lists.append access items).get? access = some ((lists.get? access).getD [] ++ items) := by
  cases access <;> rfl

theorem get?_append_of_ne {lists : ByAccess α} {access other : Access} {items : List α}
    (hne : other ≠ access) : (lists.append access items).get? other = lists.get? other := by
  cases access <;> cases other <;> first | rfl | exact absurd rfl hne

/-- Converts each item. -/
def map {β : Type} (f : α → β) (lists : ByAccess α) : ByAccess β where
  public? := lists.public?.map (List.map f)
  protected? := lists.protected?.map (List.map f)
  private? := lists.private?.map (List.map f)

theorem map_append {β : Type} (f : α → β) (lists : ByAccess α) (access : Access) (items : List α) :
    (lists.append access items).map f = (lists.map f).append access (items.map f) := by
  have happended (list? : Option (List α)) :
      (some (list?.getD [] ++ items)).map (List.map f) = some ((list?.map (List.map f)).getD [] ++ items.map f) := by
    cases list? <;> simp
  cases access <;> simp only [append, get?, map, happended]

end ByAccess

inductive RecordKind where
  | isClass | isStruct | isUnion
  deriving DecidableEq, Repr, Inhabited

namespace RecordKind

/-- The access of members and bases for which none is written. -/
def defaultAccess : RecordKind → Access
  | .isClass => .isPrivate
  | .isStruct | .isUnion => .isPublic

def word : RecordKind → Text
  | .isClass => "class".toList
  | .isStruct => "struct".toList
  | .isUnion => "union".toList

end RecordKind

structure Base where
  type : CType
  access : Access
  isVirtual : Bool
  deriving BEq, Repr, Inhabited

structure Record where
  name : Option Text
  kind : RecordKind
  api : Option Text
  templateParams : List TemplateParam
  /-- The arguments of an explicit specialization. -/
  specialization : Option Text
  bases : List Base
  methods : ByAccess FunctionDecl := {}
  members : ByAccess Variable := {}
  records : ByAccess Record := {}
  enumerations : ByAccess Enumeration := {}
  aliases : ByAccess Alias := {}
  friends : List Text := []
  isFinal : Bool
  isForwardDeclaration : Bool
  /-- Variables declared behind the closing brace. -/
  instances : List Text := []
  comment : Option Text
  deriving Repr, Inhabited

/-- A `typedef` statement. What it defines in place stands beside its aliases. -/
structure Typedef where
  aliases : List Alias
  record : Option Record
  enumeration : Option Enumeration
  deriving Repr, Inhabited

inductive RecordItem where
  | ignored
  | access (access : Access)
  | method (method : FunctionDecl)
  | members (members : List Variable)
  | record (record : Record)
  | enumeration (enumeration : Enumeration)
  | typedef (typedef : Typedef)
  | usingAlias (declared : Alias)
  | friend (name : Text)

namespace Record

/-- Files an item under the access that holds where it stands. -/
def addItem (record : Record) (access : Access) : RecordItem → Record
  | .ignored | .access _ => record
  | .method method => { record with methods := record.methods.append access [method] }
  | .members members => { record with members := record.members.append access members }
  | .record inner => { record with records := record.records.append access [inner] }
  | .enumeration inner => { record with enumerations := record.enumerations.append access [inner] }
  | .usingAlias declared => { record with aliases := record.aliases.append access [declared] }
  | .friend name => { record with friends := record.friends ++ [name] }
  | .typedef typedef =>
    { record with
      records := match typedef.record with
        | some inner => record.records.append access [inner]
        | none => record.records
      enumerations := match typedef.enumeration with
        | some inner => record.enumerations.append access [inner]
        | none => record.enumerations
      aliases := record.aliases.append access typedef.aliases }

/-- Files the items of a body that begins under `access`. -/
def addItems (record : Record) (access : Access) : List RecordItem → Record
  | [] => record
  | item :: items =>
    let next := match item with
      | .access label => label
      | _ => access
    addItems (addItem record access item) next items

end Record

end HeaderOutline
