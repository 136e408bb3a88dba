import HeaderOutline.Text.Basic
/-!
# Types

The types of declarations. `declaredBase` and `rebase` serve statements with several declarators: the
first finds the type that all of them share, the second puts a type where its name was still missing.
-/

namespace HeaderOutline

inductive CType where
  /-- Names joined by `::`. An empty first name stands for a leading `::`. -/
  | path (names : List Text)
  | generic (base : CType) (args : List CType)
  /-- A type that is a member of a generic type. -/
  | member (outer inner : CType)
  | pointer (target : CType)
  | reference (target : CType)
  | const (type : CType)
  | function (result : CType) (params : List CType)
  | array (element : CType) (size : Option Text)
  | pack (pattern : CType)
  /-- A template argument that is no type. -/
  | value (text : Text)
  deriving BEq, Repr, Inhabited

namespace CType

def void : CType := .path ["void".toList]

/-- The path without names stands for a definition that has no name yet. -/
def unnamed : CType := .path []

def isUnnamed : CType → Bool
  | .path [] => true
  | _ => false

def isPack : CType → Bool
  | .pack _ => true
  | _ => false

def isConst : CType → Bool
  | .const _ => true
  | _ => false

/-- A pointer or a reference. -/
def isIndirect : CType → Bool
  | .pointer _ | .reference _ => true
  | _ => false

/-- The type that all declarators of a statement share: `int* a, b` declares `b` as `int`. -/
def declaredBase : CType → CType
  | .pointer target => declaredBase target
  | .reference target => declaredBase target
  | .array element _ => declaredBase element
  | .const type => if type.isIndirect then declaredBase type else .const type
  | type => type

/-- Puts `base` in the place of the unnamed type, also behind pointers, arrays and results. -/
def rebase : CType → (base : CType) → CType
  | .path [], base => base
  | .pointer target, base => .pointer (rebase target base)
  | .reference target, base => .reference (rebase target base)
  | .const type, base => .const (rebase type base)
  | .pack pattern, base => .pack (rebase pattern base)
  | .array element size, base => .array (rebase element base) size
  | .function result params, base => .function (rebase result base) params
  | type, _ => type

/-- Arrays of `element` with the given sizes, the innermost first. -/
def withDimensions (element : CType) (sizes : List (Option Text)) : CType :=
  sizes.foldl (fun type size => .array type size) element

end CType

end HeaderOutline
