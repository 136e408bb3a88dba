import HeaderOutline.Record
/-!
# Reading classes

A class body holds typedefs and classes, and a typedef may define a class in place, so they are read
together. Each body opens a level of nesting: the parsers below it take the parser for the definitions
that it may hold.
-/

namespace HeaderOutline

open HeaderOutline.Parser

namespace Typedef

/-- What a typedef gives names to. -/
inductive Target where
  | type (type : CType)
  | record (record : Record)
  | enumeration (enumeration : Enumeration)

namespace Target

/-- The type of the first declarator. A definition stands for itself through the unnamed type. -/
def base : Target → CType
  | .type written => written
  | .record _ | .enumeration _ => .unnamed

def parser (room : Nat) (definition : Parser Record) : Parser Target := firstOf
  [.record <$> definition.filter fun record => !record.isForwardDeclaration,
   .enumeration <$> (enumerationDefinition room).filter fun enumeration => !enumeration.isForwardDeclaration,
   .type <$> cType room]

end Target

/-- Takes out the first name that is declared as the definition itself. -/
def takePlainName : List (Text × CType) → Option Text × List (Text × CType)
  | [] => (none, [])
  | (name, type) :: others =>
    if type.isUnnamed then (some name, others)
    else
      let (found, rest) := takePlainName others
      (found, (name, type) :: rest)

/-- The name of a definition and the declarators that stay aliases. A definition without a name takes that
of its first plain alias. -/
def nameDefinition (name : Option Text) (declarators : List (Text × CType)) :
    Option Text × List (Text × CType) :=
  match name with
  | some name => (some name, declarators)
  | none => takePlainName declarators

/-- The statement that declares the names with their types as aliases of the target. -/
def ofDeclarators (comment : Option Text) (target : Target) (declarators : List (Text × CType)) : Typedef :=
  let aliasesOf (name : Option Text) (declarators : List (Text × CType)) : List Alias :=
    declarators.map fun (declared, type) =>
      { name := declared, type := type.rebase (.path name.toList), kind := .typedef, templateParams := [], comment }
  match target with
  | .type _ => { aliases := aliasesOf none declarators, record := none, enumeration := none }
  | .record record =>
    let (name, others) := nameDefinition record.name declarators
    { aliases := aliasesOf name others
      record := some { record with name, comment := record.comment <|> comment }
      enumeration := none }
  | .enumeration enumeration =>
    let (name, others) := nameDefinition enumeration.name declarators
    { aliases := aliasesOf name others
      record := none
      enumeration := some { enumeration with name, comment := enumeration.comment <|> comment } }

end Typedef

/-- A whole typedef statement. -/
def typedefWith (room : Nat) (definition : Parser Record) : Parser Typedef := do
  let comment ← leadingComment
  let _ ← beforeGap (keyword "typedef")
  let target ← Typedef.Target.parser room definition
  let first ← afterGap (declarator room target.base true)
  let others ← many do
    let _ ← spaced (char ',')
    declarator room target.base.declaredBase true
  let _ ← afterGap (char ';')
  let declarators := (first :: others).filterMap fun declarator =>
    declarator.name.map fun name => (name, declarator.type)
  pure (Typedef.ofDeclarators comment target declarators)

namespace RecordKind

def parser : Parser RecordKind := firstOf
  [(fun _ => .isClass) <$> keyword "class",
   (fun _ => .isStruct) <$> keyword "struct",
   (fun _ => .isUnion) <$> keyword "union"]

end RecordKind

namespace Base

/-- A base with its specifiers. The first access word counts. -/
def parser (room : Nat) (default : Access) : Parser Base := do
  let words ← many (beforeGap (anyKeyword ["virtual", "public", "protected", "private"]))
  let type ← cType room
  let isVirtualWord (word : Text) : Bool := word == "virtual".toList
  let access := match words.find? fun word => !isVirtualWord word with
    | some word => Access.ofWord word
    | none => default
  pure { type, access, isVirtual := words.any isVirtualWord }

def listParser (room : Nat) (default : Access) : Parser (List Base) := do
  let _ ← spaced (char ':')
  sepBy1 (spaced (char ',')) (parser room default)

end Base

/-- `public:`, `protected slots:`, `signals:`. -/
def accessLabel : Parser Access := do
  let access ← firstOf
    [Access.ofWord <$> anyKeyword ["public", "protected", "private"],
     (fun _ => .isPublic) <$> anyKeyword ["signals", "Q_SIGNALS"]]
  let _ ← opt (afterGap (anyKeyword ["slots", "Q_SLOTS"]))
  let _ ← afterGap (char ':')
  let _ ← notFollowedBy (char ':')
  pure access

/-- `friend class Foo;`, possibly behind a template head. -/
def friendClass (room : Nat) : Parser Text := do
  let _ ← opt (templateHead room)
  let _ ← beforeGap (keyword "friend")
  let _ ← opt (beforeGap RecordKind.parser)
  let name ← textOf (cType room)
  let _ ← afterGap (char ';')
  pure name

/-- A name, possibly with the scopes in front of it. -/
def recordName : Parser Text := textOf (sepBy1 (literal "::") identifier)

/-- A definition up to its closing brace, or a forward declaration up to its semicolon. A macro name is an
export mark if another word than `final` follows it. -/
def recordDefinitionWith (room : Nat) (body : Parser (List RecordItem)) : Parser Record := do
  let comment ← leadingComment
  let templateParams ← opt (templateHead room)
  let kind ← beforeGap RecordKind.parser
  let _ ← attributes
  let api ← opt do
    let api ← macroName
    let _ ← lookahead (afterGap (identifier.filter fun word => word != "final".toList))
    pure api
  let _ ← afterGap attributes
  let name ← opt (beforeGap recordName)
  let specialization ← opt (beforeGap (inside <$> angleBrackets))
  let isFinal ← opt (beforeGap (keyword "final"))
  let bases ← opt (Base.listParser room kind.defaultAccess)
  let head : Record :=
    { name, kind, api
      templateParams := templateParams.getD []
      specialization
      bases := bases.getD []
      isFinal := isFinal.isSome
      isForwardDeclaration := false
      comment }
  let forward ← if name.isSome then opt (lookahead (afterGap (char ';'))) else pure none
  if forward.isSome then pure { head with isForwardDeclaration := true }
  else
    let _ ← afterGap (char '\x7b')
    let items ← body
    pure (head.addItems kind.defaultAccess items)

/-- A whole class statement. -/
def recordWith (room : Nat) (definition : Parser Record) : Parser Record := do
  let record ← definition
  if record.isForwardDeclaration then
    let _ ← afterGap (char ';')
    pure record
  else
    let names ← opt (instances room)
    let _ ← commit (expecting "`;` after class definition" (afterGap (char ';')))
    pure { record with instances := names.getD [] }

/-- An item of a class body. The alternatives overlap, so their order counts. -/
def recordItemWith (room : Nat) (definition : Parser Record) : Parser RecordItem := do
  let _ ← spaces0
  firstOf
    [(fun _ => .ignored) <$> char ';',
     (fun _ => .ignored) <$> directive,
     .access <$> accessLabel,
     (fun _ => .ignored) <$> staticAssertion,
     .friend <$> friendClass room,
     .typedef <$> typedefWith room definition,
     .usingAlias <$> HeaderOutline.usingAlias room,
     (fun _ => .ignored) <$> usingDeclaration,
     .enumeration <$> enumeration room,
     .record <$> recordWith room definition,
     .method <$> function room,
     .members <$> variableStatement room,
     (fun _ => .ignored) <$> macroInvocation,
     (fun _ => .ignored) <$> comment,
     unrecognized "class member"]

/-- The items of a class body, with the closing brace. -/
def recordBody : (room : Nat) → Parser (List RecordItem)
  | 0 => tooDeep
  | room + 1 =>
    manyTill (recordItemWith room (recordDefinitionWith room (recordBody room)))
      (do let _ ← spaces0; char '\x7d')

def recordDefinition (room : Nat) : Parser Record := recordDefinitionWith room (recordBody room)

def record (room : Nat) : Parser Record := recordWith room (recordDefinition room)

def typedef (room : Nat) : Parser Typedef := typedefWith room (recordDefinition room)

def recordItem (room : Nat) : Parser RecordItem := recordItemWith room (recordDefinition room)

end HeaderOutline
