import HeaderOutline.Scope.Parser
/-!
# Headers

A header is a scope that runs to the end of the text. Its directives are listed apart from its
declarations.
-/

namespace HeaderOutline

open HeaderOutline.Parser

structure Header where
  inclusions : List Include
  definitions : List Define
  pragmas : List Text
  conditionals : List Text
  /-- The declarations, without directives. -/
  scope : Scope
  deriving Repr, Inhabited

namespace Header

def ofScope (scope : Scope) : Header where
  inclusions := scope.inclusions
  definitions := scope.definitions
  pragmas := scope.pragmas
  conditionals := scope.conditionals
  scope := { scope with inclusions := [], definitions := [], pragmas := [], conditionals := [] }

def byteOrderMark : Char := '\uFEFF'

def withoutByteOrderMark : Text → Text
  | [] => []
  | c :: rest => if c = byteOrderMark then rest else c :: rest

end Header

/-- A whole header. One byte order mark in front is skipped. -/
def header (room : Nat) : Parser Header := fun input =>
  (Header.ofScope <$> scope room false) (Header.withoutByteOrderMark input)

end HeaderOutline
