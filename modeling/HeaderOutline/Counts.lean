import HeaderOutline.Scope
/-!
# Counting declarations

How many declarations of each kind a scope and the namespaces in it hold. What is declared inside classes
does not count.
-/

namespace HeaderOutline

structure Counts where
  namespaces : Nat
  records : Nat
  functions : Nat
  vars : Nat
  enumerations : Nat
  aliases : Nat
  deriving DecidableEq, Repr, Inhabited

namespace Counts

def zero : Counts := ⟨0, 0, 0, 0, 0, 0⟩

def add (a b : Counts) : Counts where
  namespaces := a.namespaces + b.namespaces
  records := a.records + b.records
  functions := a.functions + b.functions
  vars := a.vars + b.vars
  enumerations := a.enumerations + b.enumerations
  aliases := a.aliases + b.aliases

instance : Add Counts := ⟨add⟩

/-- The number of elements of each list of the scope itself. -/
def own (scope : Scope) : Counts where
  namespaces := scope.namespaces.length
  records := scope.records.length
  functions := scope.functions.length
  vars := scope.vars.length
  enumerations := scope.enumerations.length
  aliases := scope.aliases.length

mutual

def ofScope : Scope → Counts
  | scope@⟨namespaces, _, _, _, _, _, _, _, _, _, _, _⟩ => own scope + ofNamespaces namespaces

def ofNamespaces : List (Enclosed Scope) → Counts
  | [] => zero
  | inner :: namespaces => ofNamespace inner + ofNamespaces namespaces

def ofNamespace : Enclosed Scope → Counts
  | ⟨_, _, scope⟩ => ofScope scope

end

/-- A number of things, left out when there are none. -/
def part (count : Nat) (one many : String) : List Text :=
  if count = 0 then [] else [Text.ofNat count ++ ' ' :: (if count = 1 then one else many).toList]

/-- The counts that are not zero, in words. -/
def message (counts : Counts) : Text :=
  let parts := part counts.namespaces "namespace" "namespaces" ++ part counts.records "class" "classes"
    ++ part counts.functions "function" "functions" ++ part counts.vars "variable" "variables"
    ++ part counts.enumerations "enum" "enums" ++ part counts.aliases "typedef" "typedefs"
  if parts.isEmpty then "no declarations".toList else Text.join ", ".toList parts

end Counts

end HeaderOutline
