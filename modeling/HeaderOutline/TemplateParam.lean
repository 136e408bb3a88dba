import HeaderOutline.CType.Parser
/-!
# Template heads

The parameters of a `template<...>` head.
-/

namespace HeaderOutline

open HeaderOutline.Parser

structure TemplateParam where
  name : Option Text
  /-- The type of a parameter that stands for a value. -/
  type : Option CType
  defaultValue : Option Text
  isVariadic : Bool
  deriving BEq, Repr, Inhabited

namespace TemplateParam

def defaultArgument : Parser Text := do
  let _ ← spaced (char '=')
  expression [','] true

/-- A parameter that stands for a type, or for a template if it has a head of its own. -/
def typeParam (head : Parser (List TemplateParam)) : Parser TemplateParam := do
  let _ ← opt (beforeGap head)
  let _ ← anyKeyword ["typename", "class"]
  let dots ← opt (afterGap (literal "..."))
  let name ← opt (afterGap identifier)
  let defaultValue ← opt defaultArgument
  pure { name, type := none, defaultValue, isVariadic := dots.isSome }

/-- A parameter that stands for a value. -/
def valueParam (room : Nat) : Parser TemplateParam := do
  let type ← cType room
  let name ← opt (afterGap identifier)
  let defaultValue ← opt defaultArgument
  pure { name, type := some type, defaultValue, isVariadic := type.isPack }

end TemplateParam

/-- The parameters of a template head, with the gap behind it. -/
def templateHead (room : Nat) : Parser (List TemplateParam) := recurse fun head => do
  let _ ← beforeGap (keyword "template")
  let _ ← char '<'
  let params ← sepBy (spaced (char ','))
    (spaced (firstOf [TemplateParam.typeParam head, TemplateParam.valueParam room]))
  let _ ← afterGap (char '>')
  let _ ← skipGap
  pure params

end HeaderOutline
