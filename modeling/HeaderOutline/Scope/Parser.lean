import HeaderOutline.Record.Parser
import HeaderOutline.Scope
/-!
# Reading scopes

The declarations of a block or of a whole header. Every block opens a level of nesting.
-/

namespace HeaderOutline

open HeaderOutline.Parser

namespace Namespace

/-- `namespace fs = std::filesystem;`, which declares nothing. -/
def aliasStatement : Parser Text := textOf do
  let _ ← beforeGap (keyword "namespace")
  let _ ← identifier
  let _ ← spaced (char '=')
  let _ ← noneOf1 ";\x7b\x7d"
  char ';'

/-- A name in the head of a namespace. -/
def segment : Parser Text := do
  let _ ← opt (beforeGap (keyword "inline"))
  identifier

/-- The namespaces that a list of names opens, the first around the second and so on. -/
def nest (scope : Scope) : List Text → Namespace
  | [] => { name := none, isInline := false, scope }
  | [name] => { name := some name, isInline := false, scope }
  | name :: inner :: names =>
    { name := some name, isInline := false, scope := { namespaces := [nest scope (inner :: names)] } }

/-- A namespace definition with a body read by `body`. -/
def parserWith (body : Parser Scope) : Parser Namespace := do
  let _ ← spaces0
  let inlineWord ← opt (beforeGap (keyword "inline"))
  let _ ← beforeGap (keyword "namespace")
  let _ ← attributes
  let names ← opt (beforeGap (sepBy1 (spaced (literal "::")) segment))
  let _ ← attributes
  let _ ← char '\x7b'
  let scope ← body
  let _ ← opt (afterGap (char ';'))
  pure { nest scope (names.getD []) with isInline := inlineWord.isSome }

end Namespace

namespace Scope

/-- `template class Foo<int>;`, which declares nothing. -/
def explicitInstantiation : Parser Text := textOf do
  let _ ← opt (beforeGap (keyword "extern"))
  let _ ← beforeGap (keyword "template")
  let _ ← notFollowedBy (char '<')
  let _ ← noneOf1 ";\x7b\x7d"
  char ';'

/-- `extern "C" { ... }`. -/
def linkageBlock (body : Parser Scope) : Parser Scope := do
  let _ ← beforeGap (keyword "extern")
  let _ ← firstOf [literal "\"C\"", literal "\"C++\""]
  let _ ← afterGap (char '\x7b')
  body

/-- An item of a scope. The alternatives overlap, so their order counts. -/
def itemWith (room : Nat) (body : Parser Scope) : Parser ScopeItem := do
  let _ ← spaces0
  firstOf
    [(fun _ => .ignored) <$> char ';',
     .directive <$> directive,
     (fun _ => .ignored) <$> Namespace.aliasStatement,
     .enclosed <$> Namespace.parserWith body,
     .linkage <$> linkageBlock body,
     (fun _ => .ignored) <$> staticAssertion,
     (fun _ => .ignored) <$> explicitInstantiation,
     .typedef <$> typedef room,
     .usingAlias <$> HeaderOutline.usingAlias room,
     .using <$> usingDeclaration,
     .enumeration <$> enumeration room,
     .record <$> record room,
     .function <$> function room,
     .vars <$> variableStatement room,
     (fun _ => .ignored) <$> macroInvocation,
     .comment <$> HeaderOutline.comment,
     unrecognized "declaration"]

/-- The end of a block, or of the whole text. -/
def scopeEnd (isBlock : Bool) : Parser Unit := do
  let _ ← spaces0
  if isBlock then (fun _ => ()) <$> char '\x7d' else eof

end Scope

/-- Declarations up to the closing brace of a block, or up to the end of the text. -/
def scope : (room : Nat) → (isBlock : Bool) → Parser Scope
  | 0, _ => tooDeep
  | room + 1, isBlock => Scope.ofItems <$> manyTill (Scope.itemWith room (scope room true)) (Scope.scopeEnd isBlock)

def scopeItem (room : Nat) : Parser ScopeItem := Scope.itemWith room (scope room true)

/-- A namespace definition. -/
def namespaceBlock (room : Nat) : Parser Namespace := Namespace.parserWith (scope room true)

end HeaderOutline
