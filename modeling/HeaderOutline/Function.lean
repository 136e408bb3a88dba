import HeaderOutline.Comment
import HeaderOutline.Declarator
import HeaderOutline.TemplateParam
/-!
# Functions

Functions, methods, constructors, destructors and operators, with or without a body.
-/

namespace HeaderOutline

open HeaderOutline.Parser

/-- A specifier in front of a function or behind its parameters. -/
inductive FunctionSpecifier where
  | virtual | override | final | static | inline | explicit | constexpr | external | friend
  deriving DecidableEq, Repr, Inhabited

namespace FunctionSpecifier

/-- The specifier that a word stands for. `constexpr` stands for `consteval` too, and for any other word. -/
def ofWord (word : Text) : FunctionSpecifier :=
  if word = "virtual".toList then .virtual
  else if word = "override".toList then .override
  else if word = "final".toList then .final
  else if word = "static".toList then .static
  else if word = "inline".toList then .inline
  else if word = "explicit".toList then .explicit
  else if word = "extern".toList then .external
  else if word = "friend".toList then .friend
  else .constexpr

/-- The word that stands for the specifier. -/
def word : FunctionSpecifier → Text
  | .virtual => "virtual".toList
  | .override => "override".toList
  | .final => "final".toList
  | .static => "static".toList
  | .inline => "inline".toList
  | .explicit => "explicit".toList
  | .constexpr => "constexpr".toList
  | .external => "extern".toList
  | .friend => "friend".toList

/-- A specifier in front of a function. A language linkage behind `extern` is skipped. -/
def parser : Parser FunctionSpecifier :=
  let linkage : Parser Text := do
    let text ← keyword "extern"
    let _ ← opt (afterGap (literal "\"C\""))
    pure text
  ofWord <$> firstOf
    ((["virtual", "static", "inline", "explicit", "constexpr", "consteval", "friend"].map keyword) ++ [linkage])

/-- Specifiers and attributes in any order. -/
def listParser : Parser (List FunctionSpecifier) := do
  let found ← many (beforeGap (firstOf [some <$> parser, (fun _ => none) <$> attributeMark]))
  pure (found.filterMap id)

end FunctionSpecifier

structure FunctionDecl where
  name : Text
  api : Option Text
  /-- Constructors, destructors and conversion operators have none. -/
  returnType : Option CType
  templateParams : List TemplateParam
  params : List Param
  specifiers : List FunctionSpecifier
  isConst : Bool
  isNoexcept : Bool
  isPureVirtual : Bool
  isDeleted : Bool
  isDefaulted : Bool
  isVariadic : Bool
  hasBody : Bool
  comment : Option Text
  deriving BEq, Repr, Inhabited

namespace FunctionDecl

def isOperatorChar (c : Char) : Bool := "+-*/%^&|~!=<>,".toList.contains c

/-- The name of an operator: a sign, an allocation operator, a literal operator or a conversion. -/
def operatorName (room : Nat) : Parser Text := textOf do
  let _ ← keyword "operator"
  afterGap (firstOf
    [literal "()",
     literal "[]",
     textOf do
      let _ ← anyKeyword ["new", "delete"]
      opt (afterGap (literal "[]")),
     textOf do
      let _ ← literal "\"\""
      afterGap identifier,
     takeWhile1 .run isOperatorChar,
     textOf (cType room)])

/-- A function name with the scopes in front of it. -/
def nameParser (room : Nat) : Parser Text := textOf do
  let _ ← many do
    let _ ← plainName
    let _ ← opt (afterGap angleBrackets)
    literal "::"
  firstOf
    [operatorName room,
     textOf do
      let _ ← char '~'
      afterGap identifier,
     plainName]

/-- What names a function: its return type, if it has one, and its name, in front of a parenthesis. -/
structure Signature where
  returnType : Option CType
  name : Text

def signature (room : Nat) : Parser Signature := firstOf
  [(do
    let type ← cType room
    let name ← afterGap (nameParser room)
    let _ ← lookahead (afterGap (char '('))
    pure ⟨some type, name⟩),
   (do
    let name ← (nameParser room).filter fun name => !isMacroName name
    let _ ← lookahead (afterGap (char '('))
    pure ⟨none, name⟩)]

/-- What may stand behind the parameters of a function. -/
inductive Qualifier where
  | const
  | noexcept (holds : Bool)
  | specifier (specifier : FunctionSpecifier)
  | returnType (type : CType)
  | ignored

namespace Qualifier

/-- A `noexcept` holds unless its condition is `false`. -/
def parser (room : Nat) : Parser Qualifier := firstOf
  [(fun _ => .const) <$> keyword "const",
   (fun _ => .ignored) <$> keyword "volatile",
   (do
    let _ ← keyword "noexcept"
    let condition ← opt (afterGap parentheses)
    pure (.noexcept (condition.all fun text => inside text != "false".toList))),
   (do
    let _ ← keyword "throw"
    let _ ← afterGap parentheses
    pure .ignored),
   (fun _ => .specifier .override) <$> keyword "override",
   (fun _ => .specifier .final) <$> keyword "final",
   (fun _ => .ignored) <$> firstOf [literal "&&", literal "&"],
   (do
    let _ ← literal "->"
    let type ← afterGap (cType room)
    pure (.returnType type)),
   (fun _ => .ignored) <$> attributeMark]

/-- Adds what the qualifier says to the function. -/
def apply (function : FunctionDecl) : Qualifier → FunctionDecl
  | .const => { function with isConst := true }
  | .noexcept holds => { function with isNoexcept := holds }
  | .specifier added => { function with specifiers := function.specifiers ++ [added] }
  | .returnType type => { function with returnType := some type }
  | .ignored => function

end Qualifier

/-- What may stand behind an equals sign in place of a body. -/
inductive Definition where
  | pure | default | delete
  deriving DecidableEq

def definition : Parser Definition := do
  let _ ← spaced (char '=')
  firstOf
    [(fun _ => .pure) <$> char '0',
     (fun _ => .default) <$> keyword "default",
     (fun _ => .delete) <$> keyword "delete"]

/-- The initializers between the parameters and the body of a constructor. -/
def constructorInitializers (room : Nat) : Parser Unit := do
  let _ ← beforeGap (char ':')
  let _ ← sepBy1 (spaced (char ',')) do
    let _ ← nameParser room
    let _ ← opt angleBrackets
    let _ ← afterGap (firstOf [parentheses, braces])
    opt (literal "...")
  Pure.pure ()

/-- The end of a function: a semicolon, or a body. Tells whether it is a body. -/
def bodyParser (room : Nat) : Parser Bool := firstOf
  [(fun _ => false) <$> afterGap (char ';'),
   (do
    let _ ← skipGap
    let _ ← opt (constructorInitializers room)
    let _ ← afterGap braces
    Pure.pure true)]

end FunctionDecl

open FunctionDecl in
/-- A whole function statement. An export macro may stand in front of the signature, with specifiers on
both sides of it. -/
def function (room : Nat) : Parser FunctionDecl := do
  let comment ← leadingComment
  let templateParams ← opt (templateHead room)
  let leading ← FunctionSpecifier.listParser
  let (api, trailing, signature) ← firstOf
    [(fun signature => (none, [], signature)) <$> signature room,
     (do
      let api ← beforeGap macroName
      let trailing ← FunctionSpecifier.listParser
      let signature ← signature room
      pure (some api, trailing, signature))]
  let params ← afterGap (paramList room)
  let qualifiers ← many (afterGap (Qualifier.parser room))
  let definition ← opt definition
  let hasBody ← bodyParser room
  let declared : FunctionDecl :=
    { name := signature.name
      api
      returnType := signature.returnType
      templateParams := templateParams.getD []
      params := params.params
      specifiers := leading ++ trailing
      isConst := false
      isNoexcept := false
      isPureVirtual := definition == some .pure
      isDeleted := definition == some .delete
      isDefaulted := definition == some .default
      isVariadic := params.isVariadic
      hasBody
      comment }
  pure (qualifiers.foldl Qualifier.apply declared)

end HeaderOutline
