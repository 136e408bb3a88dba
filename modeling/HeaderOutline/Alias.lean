import HeaderOutline.Comment
import HeaderOutline.Declarator
import HeaderOutline.TemplateParam
/-!
# Aliases

Names for types, and names taken over from other scopes.
-/

namespace HeaderOutline

open HeaderOutline.Parser

inductive AliasKind where
  | typedef | using
  deriving DecidableEq, Repr, Inhabited

structure Alias where
  name : Text
  type : CType
  kind : AliasKind
  templateParams : List TemplateParam
  comment : Option Text
  deriving BEq, Repr, Inhabited

/-- `using Name = Type;`, possibly behind a template head. -/
def usingAlias (room : Nat) : Parser Alias := do
  let comment ← leadingComment
  let templateParams ← opt (templateHead room)
  let _ ← beforeGap (keyword "using")
  let name ← identifier
  let _ ← afterGap attributes
  let _ ← spaced (char '=')
  let _ ← opt (beforeGap (keyword "typename"))
  let type ← cType room
  let declarator ← declarator room type false
  let _ ← afterGap (char ';')
  pure { name, type := declarator.type, kind := .using, templateParams := templateParams.getD [], comment }

/-- `using namespace std;` or `using Base::method;`, without the keyword. -/
def usingDeclaration : Parser Text := do
  let _ ← spaced (keyword "using")
  let target ← noneOf1 ";\x7b\x7d="
  let _ ← char ';'
  pure (Text.trim target)

end HeaderOutline
