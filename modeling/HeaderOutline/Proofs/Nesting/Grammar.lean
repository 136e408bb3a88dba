import HeaderOutline.Header
import HeaderOutline.Proofs.Nesting.Levelled
/-!
# The grammar consists of programs

Every parser of the language that takes the levels that are left is a program. Three of them open a level: the template
argument lists, the bodies of classes and the scopes. The others only hand the levels on.
-/

set_option synthInstance.maxSize 1024

namespace HeaderOutline

open HeaderOutline.Parser

variable {α : Type} {limit : Nat}

/-! ### Gaps -/

section Gap

variable {p : Nat → Parser α} [Levelled limit p]

instance : Levelled limit fun room => afterGap (p room) := by
  unfold afterGap
  infer_instance

instance : Levelled limit fun room => beforeGap (p room) := by
  unfold beforeGap
  infer_instance

instance : Levelled limit fun room => spaced (p room) := by
  unfold spaced
  infer_instance

end Gap

/-! ### Types -/

namespace CType

section Args

variable {args : Nat → Parser (List CType)} [Levelled limit args]

instance : Levelled limit fun room => named (args room) := by
  unfold named
  refine .recurse fun p hnamed => .bind inferInstance fun base => .bind inferInstance fun found => ?_
  cases found with
  | none => exact .plain (pure base)
  | some list =>
    refine .bind inferInstance fun inner => ?_
    cases inner <;> exact .plain (pure _)

instance {isConst : Bool} : Levelled limit fun room => unqualified (args room) isConst := by
  unfold unqualified
  infer_instance

instance : Levelled limit fun room => qualified (args room) := by
  unfold qualified
  infer_instance

instance : Levelled limit fun room => typeArgument (args room) := by
  unfold typeArgument
  infer_instance

instance : Levelled limit fun room => argument (args room) := by
  unfold argument
  infer_instance

end Args

end CType

open CType

/-- A template argument list opens a level. -/
instance levelled_templateArgs : Levelled limit templateArgs := by
  induction limit with
  | zero => exact .zero templateArgs
  | succ limit ih =>
    refine .level rfl ?_
    unfold templateArgs
    infer_instance

instance {isConst : Bool} : Levelled limit fun room => unqualifiedType room isConst := by
  unfold unqualifiedType
  infer_instance

instance : Levelled limit cType := by
  unfold cType
  infer_instance

/-! ### Heads, parameters and declarators -/

namespace TemplateParam

instance {head : Nat → Parser (List TemplateParam)} [Levelled limit head] : Levelled limit fun room => typeParam (head room) := by
  unfold typeParam
  infer_instance

instance : Levelled limit valueParam := by
  unfold valueParam
  infer_instance

end TemplateParam

instance : Levelled limit templateHead := by
  unfold templateHead
  refine .recurse fun head hhead => ?_
  infer_instance

section ParamList

variable {list : Nat → Parser ParamList} [Levelled limit list]

instance {result : CType} : Levelled limit fun room => Declarator.functionPointer (list room) result := by
  unfold Declarator.functionPointer
  infer_instance

instance {base : CType} {isNamed : Bool} : Levelled limit fun room => Declarator.parserWith (list room) base isNamed := by
  unfold Declarator.parserWith
  refine .bind inferInstance fun type => .bind inferInstance fun found => ?_
  dsimp only
  infer_instance

instance : Levelled limit fun room => Param.parserWith (list room) room := by
  unfold Param.parserWith
  infer_instance

end ParamList

instance : Levelled limit paramList := by
  unfold paramList
  refine .recurse fun list hlist => ?_
  infer_instance

instance {base : CType} {isNamed : Bool} : Levelled limit fun room => declarator room base isNamed := by
  unfold declarator
  infer_instance

instance : Levelled limit instances := by
  unfold instances
  infer_instance

/-! ### Statements -/

instance : Levelled limit enumerationDefinition := by
  unfold enumerationDefinition
  infer_instance

instance : Levelled limit enumeration := by
  unfold enumeration
  infer_instance

namespace FunctionDecl

instance : Levelled limit operatorName := by
  unfold operatorName
  infer_instance

instance : Levelled limit nameParser := by
  unfold nameParser
  infer_instance

instance : Levelled limit signature := by
  unfold signature
  infer_instance

instance : Levelled limit Qualifier.parser := by
  unfold Qualifier.parser
  infer_instance

instance : Levelled limit constructorInitializers := by
  unfold constructorInitializers
  infer_instance

instance : Levelled limit bodyParser := by
  unfold bodyParser
  infer_instance

end FunctionDecl

instance : Levelled limit function := by
  unfold function
  infer_instance

instance : Levelled limit variableStatement := by
  unfold variableStatement
  infer_instance

instance : Levelled limit usingAlias := by
  unfold usingAlias
  infer_instance

/-! ### Classes -/

section Definition

variable {definition : Nat → Parser Record} [Levelled limit definition]

instance : Levelled limit fun room => Typedef.Target.parser room (definition room) := by
  unfold Typedef.Target.parser
  infer_instance

instance : Levelled limit fun room => typedefWith room (definition room) := by
  unfold typedefWith
  infer_instance

instance {default : Access} : Levelled limit fun room => Base.parser room default := by
  unfold Base.parser
  infer_instance

instance {default : Access} : Levelled limit fun room => Base.listParser room default := by
  unfold Base.listParser
  infer_instance

instance : Levelled limit friendClass := by
  unfold friendClass
  infer_instance

instance {body : Nat → Parser (List RecordItem)} [Levelled limit body] :
    Levelled limit fun room => recordDefinitionWith room (body room) := by
  unfold recordDefinitionWith
  infer_instance

instance : Levelled limit fun room => recordWith room (definition room) := by
  unfold recordWith
  infer_instance

instance : Levelled limit fun room => recordItemWith room (definition room) := by
  unfold recordItemWith
  infer_instance

end Definition

/-- A class body opens a level. -/
instance levelled_recordBody : Levelled limit recordBody := by
  induction limit with
  | zero => exact .zero recordBody
  | succ limit ih =>
    refine .level rfl ?_
    unfold recordBody
    infer_instance

instance : Levelled limit recordDefinition := by
  unfold recordDefinition
  infer_instance

instance : Levelled limit record := by
  unfold record
  infer_instance

instance : Levelled limit typedef := by
  unfold typedef
  infer_instance

instance : Levelled limit recordItem := by
  unfold recordItem
  infer_instance

/-! ### Scopes -/

section Body

variable {body : Nat → Parser Scope} [Levelled limit body]

instance : Levelled limit fun room => Namespace.parserWith (body room) := by
  unfold Namespace.parserWith
  infer_instance

instance : Levelled limit fun room => Scope.linkageBlock (body room) := by
  unfold Scope.linkageBlock
  infer_instance

instance : Levelled limit fun room => Scope.itemWith room (body room) := by
  unfold Scope.itemWith
  infer_instance

end Body

/-- A scope opens a level. -/
instance levelled_scope {isBlock : Bool} : Levelled limit fun room => scope room isBlock := by
  induction limit generalizing isBlock with
  | zero => exact .zero _
  | succ limit ih =>
    refine .level rfl ?_
    unfold scope
    infer_instance

instance : Levelled limit scopeItem := by
  unfold scopeItem
  infer_instance

instance : Levelled limit namespaceBlock := by
  unfold namespaceBlock
  infer_instance

/-- Steps over a byte order mark, if there is one. -/
def Header.byteOrderMarkSkipped : Parser Unit := fun input => .ok () (withoutByteOrderMark input)

instance : Levelled limit header :=
  inferInstanceAs (Levelled limit fun room => Header.byteOrderMarkSkipped >>= fun _ => Header.ofScope <$> scope room false)

/-! ### The parsers of the library -/

/-- The parsers of the library, each as it depends on the levels that are left. -/
inductive Construct : {α : Type} → (Nat → Parser α) → Prop
  /-- Words, gaps, raw text, comments, directives and all else that takes no levels. -/
  | plain {α : Type} (p : Parser α) : Construct fun _ => p
  | templateArgs : Construct templateArgs
  | named : Construct fun room => named (templateArgs room)
  | typeArgument : Construct fun room => typeArgument (templateArgs room)
  | argument : Construct fun room => argument (templateArgs room)
  | unqualifiedType (isConst : Bool) : Construct fun room => unqualifiedType room isConst
  | cType : Construct cType
  | typeParam : Construct fun room => TemplateParam.typeParam (templateHead room)
  | valueParam : Construct TemplateParam.valueParam
  | templateHead : Construct templateHead
  | functionPointer (result : CType) : Construct fun room => Declarator.functionPointer (paramList room) result
  | param : Construct fun room => Param.parserWith (paramList room) room
  | paramList : Construct paramList
  | declarator (base : CType) (isNamed : Bool) : Construct fun room => declarator room base isNamed
  | instances : Construct instances
  | enumerationDefinition : Construct enumerationDefinition
  | enumeration : Construct enumeration
  | operatorName : Construct FunctionDecl.operatorName
  | functionName : Construct FunctionDecl.nameParser
  | signature : Construct FunctionDecl.signature
  | qualifier : Construct FunctionDecl.Qualifier.parser
  | constructorInitializers : Construct FunctionDecl.constructorInitializers
  | functionBody : Construct FunctionDecl.bodyParser
  | function : Construct function
  | variableStatement : Construct variableStatement
  | usingAlias : Construct usingAlias
  | target : Construct fun room => Typedef.Target.parser room (recordDefinition room)
  | typedef : Construct typedef
  | base (default : Access) : Construct fun room => Base.parser room default
  | bases (default : Access) : Construct fun room => Base.listParser room default
  | friendClass : Construct friendClass
  | recordItem : Construct recordItem
  | recordBody : Construct recordBody
  | recordDefinition : Construct recordDefinition
  | record : Construct record
  | linkageBlock : Construct fun room => Scope.linkageBlock (scope room true)
  | scopeItem : Construct scopeItem
  | scope (isBlock : Bool) : Construct fun room => scope room isBlock
  | namespaceBlock : Construct namespaceBlock
  | header : Construct header

theorem Construct.levelled {p : Nat → Parser α} (hp : Construct p) : Levelled limit p := by
  cases hp <;> infer_instance

end HeaderOutline
