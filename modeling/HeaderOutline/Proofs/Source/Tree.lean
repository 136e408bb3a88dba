import HeaderOutline.Header
import HeaderOutline.Proofs.CType.Written
/-!
# Declarations as they are written

Trees of namespaces, structs, functions and variables, with the text that declares them and the header that
describes them. The text leaves the white space between tokens to a layout.
-/

namespace HeaderOutline

open HeaderOutline.CType

/-- A plain name that is no arithmetic word. -/
def isDeclarable (name : Text) : Bool := isPlainName name && !isArithmeticWord name

inductive Declaration where
  | var (type : CType) (name : Text)
  | function (result : CType) (name : Text) (params : List (CType × Text))
  | struct (name : Text) (members : List Declaration)

inductive SourceItem where
  | declaration (declaration : Declaration)
  | enclosed (name : Text) (items : List SourceItem)

/-- The white space of a text. Words have to be apart; everything else may stand close. -/
structure Layout where
  /-- Between words, and in front of an opening brace. -/
  blank : Text
  /-- Around parentheses, and in front of a comma or semicolon. -/
  pad : Text
  /-- Behind a comma. -/
  comma : Text
  /-- At the end of a line. -/
  line : Text
  blank_ne : blank ≠ []
  isSpaces_blank : IsSpaces blank
  isSpaces_pad : IsSpaces pad
  isSpaces_comma : IsSpaces comma
  isSpaces_line : IsSpaces line

namespace Layout

/-- One space between any two tokens, and a line for each item. -/
def spaced : Layout where
  blank := [' ']
  pad := [' ']
  comma := [' ']
  line := ['\n']
  blank_ne := by decide
  isSpaces_blank := by decide
  isSpaces_pad := by decide
  isSpaces_comma := by decide
  isSpaces_line := by decide

/-- Spaces only between words, behind commas and in front of braces. -/
def compact : Layout := { spaced with pad := [], isSpaces_pad := by decide }

end Layout

/-! ### Well-formed trees -/

namespace Declaration

inductive WellFormed : Declaration → Prop
  | var {type : CType} {name : Text} (htype : Written type) (hname : isDeclarable name = true) :
      WellFormed (.var type name)
  | function {result : CType} {name : Text} {params : List (CType × Text)} (hresult : Written result)
      (hname : isDeclarable name = true) (hparams : ∀ param ∈ params, Written param.1 ∧ isDeclarable param.2 = true) :
      WellFormed (.function result name params)
  | struct {name : Text} {members : List Declaration} (hname : isDeclarable name = true)
      (hmembers : ∀ member ∈ members, WellFormed member) : WellFormed (.struct name members)

mutual

/-- How deep blocks and template argument lists are nested. -/
def depth : Declaration → Nat
  | .var type _ => listDepth type
  | .function result _ params => max (listDepth result) (CType.deepest (params.map Prod.fst))
  | .struct _ members => deepest members + 1

def deepest : List Declaration → Nat
  | [] => 0
  | declaration :: declarations => max (depth declaration) (deepest declarations)

end

theorem depth_le_deepest {declared : Declaration} {declarations : List Declaration} (hdeclared : declared ∈ declarations) :
    declared.depth ≤ deepest declarations := by
  induction declarations with
  | nil => cases hdeclared
  | cons first declarations ih =>
    rw [deepest]
    cases hdeclared with
    | head => exact Nat.le_max_left _ _
    | tail _ hdeclared => exact Nat.le_trans (ih hdeclared) (Nat.le_max_right _ _)

end Declaration

namespace SourceItem

inductive WellFormed : SourceItem → Prop
  | declaration {declared : Declaration} (hdeclared : declared.WellFormed) : WellFormed (.declaration declared)
  | enclosed {name : Text} {items : List SourceItem} (hname : isDeclarable name = true)
      (hitems : ∀ item ∈ items, WellFormed item) : WellFormed (.enclosed name items)

mutual

/-- How deep blocks and template argument lists are nested. -/
def depth : SourceItem → Nat
  | .declaration declared => declared.depth
  | .enclosed _ items => deepest items + 1

def deepest : List SourceItem → Nat
  | [] => 0
  | item :: items => max (depth item) (deepest items)

end

theorem depth_le_deepest {item : SourceItem} {items : List SourceItem} (hitem : item ∈ items) :
    item.depth ≤ deepest items := by
  induction items with
  | nil => cases hitem
  | cons first items ih =>
    rw [deepest]
    cases hitem with
    | head => exact Nat.le_max_left _ _
    | tail _ hitem => exact Nat.le_trans (ih hitem) (Nat.le_max_right _ _)

end SourceItem

/-! ### Text -/

variable (layout : Layout)

namespace Declaration

def paramText (param : CType × Text) : Text := render param.1 ++ layout.blank ++ param.2

/-- The parameters with commas between them. -/
def paramsText : List (CType × Text) → Text
  | [] => []
  | param :: params =>
    paramText layout param ++ params.flatMap (fun next => layout.pad ++ ',' :: layout.comma ++ paramText layout next) ++
      layout.pad

mutual

def text : Declaration → Text
  | .var type name => render type ++ layout.blank ++ name ++ layout.pad ++ [';']
  | .function result name params =>
    render result ++ layout.blank ++ name ++ layout.pad ++ '(' :: layout.pad ++ paramsText layout params ++ ')' ::
      layout.pad ++ [';']
  | .struct name members =>
    "struct".toList ++ layout.blank ++ name ++ layout.blank ++ '\x7b' :: layout.line ++ lines members ++ '\x7d' ::
      layout.pad ++ [';']

/-- One declaration a line. -/
def lines : List Declaration → Text
  | [] => []
  | declaration :: declarations => text declaration ++ layout.line ++ lines declarations

end

theorem text_var (type : CType) (name rest : Text) : text layout (.var type name) ++ rest =
    render type ++ (layout.blank ++ (name ++ (layout.pad ++ ';' :: rest))) := by
  show render type ++ layout.blank ++ name ++ layout.pad ++ [';'] ++ rest = _
  simp only [List.append_assoc, List.cons_append, List.nil_append]

theorem text_function (result : CType) (name : Text) (params : List (CType × Text)) (rest : Text) :
    text layout (.function result name params) ++ rest = render result ++ (layout.blank ++ (name ++
      (layout.pad ++ '(' :: (layout.pad ++ (paramsText layout params ++ ')' :: (layout.pad ++ ';' :: rest)))))) := by
  show render result ++ layout.blank ++ name ++ layout.pad ++ '(' :: layout.pad ++ paramsText layout params ++ ')' ::
    layout.pad ++ [';'] ++ rest = _
  simp only [List.append_assoc, List.cons_append, List.nil_append]

example : text .compact (.function (.path ["int".toList]) "max".toList
      [(.path ["int".toList], "a".toList), (.path ["int".toList], "b".toList)]) = "int max(int a, int b);".toList := by
  decide +kernel

theorem text_struct (name : Text) (members : List Declaration) (rest : Text) :
    text layout (.struct name members) ++ rest = "struct".toList ++ (layout.blank ++ (name ++ (layout.blank ++
      '\x7b' :: (layout.line ++ (lines layout members ++ '\x7d' :: (layout.pad ++ ';' :: rest)))))) := by
  show "struct".toList ++ layout.blank ++ name ++ layout.blank ++ '\x7b' :: layout.line ++ lines layout members ++
    '\x7d' :: layout.pad ++ [';'] ++ rest = _
  simp only [List.append_assoc, List.cons_append, List.nil_append]

theorem lines_eq_flatMap (declarations : List Declaration) :
    lines layout declarations = declarations.flatMap fun declared => text layout declared ++ layout.line := by
  induction declarations with
  | nil => rfl
  | cons declared declarations ih =>
    rw [List.flatMap_cons, ← ih]
    rfl

end Declaration

namespace SourceItem

mutual

def text : SourceItem → Text
  | .declaration declared => declared.text layout
  | .enclosed name items =>
    "namespace".toList ++ layout.blank ++ name ++ layout.blank ++ '\x7b' :: layout.line ++ lines items ++ ['\x7d']

/-- One item a line. -/
def lines : List SourceItem → Text
  | [] => []
  | item :: items => text item ++ layout.line ++ lines items

end

theorem text_enclosed (name : Text) (items : List SourceItem) (rest : Text) :
    text layout (.enclosed name items) ++ rest = "namespace".toList ++ (layout.blank ++ (name ++ (layout.blank ++
      '\x7b' :: (layout.line ++ (lines layout items ++ '\x7d' :: rest))))) := by
  show "namespace".toList ++ layout.blank ++ name ++ layout.blank ++ '\x7b' :: layout.line ++ lines layout items ++
    ['\x7d'] ++ rest = _
  simp only [List.append_assoc, List.cons_append, List.nil_append]

theorem lines_eq_flatMap (items : List SourceItem) :
    lines layout items = items.flatMap fun item => text layout item ++ layout.line := by
  induction items with
  | nil => rfl
  | cons item items ih =>
    rw [List.flatMap_cons, ← ih]
    rfl

end SourceItem

/-! ### Contents -/

/-- Where something is listed, it is public. -/
def ByAccess.publicly {α : Type} (items : List α) : ByAccess α :=
  { public? := if items.isEmpty then none else some items }

namespace Declaration

def variableOf (type : CType) (name : Text) : Variable :=
  { name, type, defaultValue := none, bitfield := none, modifiers := [], comment := none }

def paramOf (param : CType × Text) : Param :=
  { name := some param.2
    type := param.1
    isConst := param.1.beginsConst || param.1.isConst
    defaultValue := none }

def functionOf (result : CType) (name : Text) (params : List (CType × Text)) : FunctionDecl :=
  { name
    api := none
    returnType := some result
    templateParams := []
    params := params.map paramOf
    specifiers := []
    isConst := false
    isNoexcept := false
    isPureVirtual := false
    isDeleted := false
    isDefaulted := false
    isVariadic := false
    hasBody := false
    comment := none }

def toVariable? : Declaration → Option Variable
  | .var type name => some (variableOf type name)
  | _ => none

def toFunction? : Declaration → Option FunctionDecl
  | .function result name params => some (functionOf result name params)
  | _ => none

def recordOf (name : Text) (methods : List FunctionDecl) (members : List Variable) (records : List Record) : Record :=
  { name := some name
    kind := .isStruct
    api := none
    templateParams := []
    specialization := none
    bases := []
    methods := .publicly methods
    members := .publicly members
    records := .publicly records
    isFinal := false
    isForwardDeclaration := false
    comment := none }

/-- The structs among the declarations. -/
def records : List Declaration → List Record
  | [] => []
  | .struct name members :: declarations =>
    recordOf name (members.filterMap toFunction?) (members.filterMap toVariable?) (records members) :: records declarations
  | _ :: declarations => records declarations

end Declaration

namespace SourceItem

def toDeclaration? : SourceItem → Option Declaration
  | .declaration declared => some declared
  | .enclosed _ _ => none

/-- The scope with these items, of which `namespaces` describes the namespaces. -/
def scopeWith (items : List SourceItem) (namespaces : List Namespace) : Scope :=
  let declarations := items.filterMap toDeclaration?
  { namespaces
    records := Declaration.records declarations
    functions := declarations.filterMap Declaration.toFunction?
    vars := declarations.filterMap Declaration.toVariable? }

/-- The namespaces among the items. -/
def namespaces : List SourceItem → List Namespace
  | [] => []
  | .enclosed name inner :: items =>
    { name := some name, isInline := false, scope := scopeWith inner (namespaces inner) } :: namespaces items
  | .declaration _ :: items => namespaces items

/-- The header that declares these items. -/
def header (items : List SourceItem) : Header :=
  { inclusions := [], definitions := [], pragmas := [], conditionals := [], scope := scopeWith items (namespaces items) }

end SourceItem

end HeaderOutline
