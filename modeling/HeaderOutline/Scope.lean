import HeaderOutline.Record
/-!
# Scopes

What is declared in a namespace, or at the top of a header. `Scope.ofItems` lists the contents of the
items of a block, each in the list of its kind and in source order.
-/

namespace HeaderOutline

/-- A namespace with contents of type `σ`. -/
structure Enclosed (σ : Type) where
  /-- An anonymous namespace has none. -/
  name : Option Text
  isInline : Bool
  scope : σ
  deriving Repr, Inhabited

structure Scope where
  namespaces : List (Enclosed Scope) := []
  records : List Record := []
  functions : List FunctionDecl := []
  vars : List Variable := []
  enumerations : List Enumeration := []
  aliases : List Alias := []
  /-- The targets of using declarations. -/
  usings : List Text := []
  comments : List Text := []
  inclusions : List Include := []
  definitions : List Define := []
  pragmas : List Text := []
  conditionals : List Text := []
  deriving Repr, Inhabited

abbrev Namespace := Enclosed Scope

inductive ScopeItem where
  | ignored
  | directive (directive : Directive)
  | enclosed (inner : Namespace)
  /-- The contents of a block with a language linkage. -/
  | linkage (contents : Scope)
  | record (record : Record)
  | enumeration (enumeration : Enumeration)
  | typedef (typedef : Typedef)
  | usingAlias (declared : Alias)
  | using (target : Text)
  | function (function : FunctionDecl)
  | vars (declared : List Variable)
  | comment (text : Text)

namespace Scope

/-- The contents of both scopes, those of `first` in front. -/
def append (first second : Scope) : Scope where
  namespaces := first.namespaces ++ second.namespaces
  records := first.records ++ second.records
  functions := first.functions ++ second.functions
  vars := first.vars ++ second.vars
  enumerations := first.enumerations ++ second.enumerations
  aliases := first.aliases ++ second.aliases
  usings := first.usings ++ second.usings
  comments := first.comments ++ second.comments
  inclusions := first.inclusions ++ second.inclusions
  definitions := first.definitions ++ second.definitions
  pragmas := first.pragmas ++ second.pragmas
  conditionals := first.conditionals ++ second.conditionals

instance : Append Scope := ⟨append⟩

/-- What a directive adds to the scope around it. -/
def ofDirective : Directive → Scope
  | .includes target => { inclusions := [target] }
  | .defines definition => { definitions := [definition] }
  | .pragma text => { pragmas := [text] }
  | .conditional text => { conditionals := [text] }

/-- What a typedef adds: its definition, and its aliases. -/
def ofTypedef (typedef : Typedef) : Scope where
  records := typedef.record.toList
  enumerations := typedef.enumeration.toList
  aliases := typedef.aliases

/-- What an item adds to the scope around it. -/
def ofItem : ScopeItem → Scope
  | .ignored => {}
  | .directive directive => ofDirective directive
  | .enclosed inner => { namespaces := [inner] }
  | .linkage contents => contents
  | .record record => { records := [record] }
  | .enumeration enumeration => { enumerations := [enumeration] }
  | .typedef typedef => ofTypedef typedef
  | .usingAlias declared => { aliases := [declared] }
  | .using target => { usings := [target] }
  | .function function => { functions := [function] }
  | .vars declared => { vars := declared }
  | .comment text => { comments := [text] }

def ofItems (items : List ScopeItem) : Scope := items.foldr (fun item scope => ofItem item ++ scope) {}

end Scope

end HeaderOutline
