import HeaderOutline.Proofs.FinalNewline.Lexeme
/-!
# The grammar and the final line feed

All parsers of declarations do the same with and without a line feed at the end of the text. Names and types keep it,
since their text is part of a declaration.
-/

set_option synthInstance.maxSize 1024

namespace HeaderOutline

open HeaderOutline.Parser

variable {keeps : Bool}

/-! ### Types -/

namespace CType

instance : Solid ["::"] := ⟨by decide⟩

instance : Solid ["..."] := ⟨by decide⟩

instance : Solid ["const"] := ⟨by decide⟩

instance : Solid ["volatile"] := ⟨by decide⟩

instance : Solid arithmeticWords := ⟨by decide⟩

instance : InStep keeps arithmeticName arithmeticName := by
  have hend : Mismatches (anyKeyword arithmeticWords) [] := ⟨_, rfl⟩
  have htail : InStep true (sepTail spaces1 (anyKeyword arithmeticWords)) (sepTail spaces1 (anyKeyword arithmeticWords)) :=
    .sepTail_spaces1 hend
  unfold arithmeticName sepBy1
  infer_instance

instance : InStep keeps pathNames pathNames := by
  unfold pathNames
  infer_instance

instance : InStep keeps decltypeName decltypeName := by
  have : Solid ["decltype"] := ⟨by decide⟩
  unfold decltypeName
  infer_instance

instance : InStep keeps baseName baseName := by
  unfold baseName
  infer_instance

instance {α β : Type} {separator : Parser β} {p : Parser α} [Bounded separator] [Bounded p] [Consuming p] :
    Consuming (sepBy1 separator p) := by
  unfold sepBy1
  infer_instance

instance : Consuming baseName := by
  have : Solid ["decltype"] := ⟨by decide⟩
  unfold baseName decltypeName arithmeticName pathNames
  infer_instance

section Args

variable {args : Parser (List CType)} [Bounded args]

instance : Consuming (named args) := by
  have hknot : Bounded (named args) := inferInstance
  unfold named at hknot ⊢
  refine .recurse fun q hq => .bind inferInstance fun base => .bind inferInstance fun found => ?_
  cases found with
  | none => exact inferInstanceAs (Bounded (pure base))
  | some list =>
    refine .bind inferInstance fun inner => ?_
    cases inner <;> infer_instance

instance [Consuming args] [InStep keeps args args] : InStep keeps (named args) (named args) := by
  unfold named
  refine .recurse (fun p => ?_) fun p q hp => .bind inferInstance fun base => .bind inferInstance fun found => ?_
  · exact ⟨_, rfl⟩
  · cases found with
    | none => exact inferInstanceAs (InStep keeps (pure base) (pure base))
    | some list =>
      refine .bind inferInstance fun inner => ?_
      cases inner <;> infer_instance

instance : InStep keeps Suffix.parser Suffix.parser := by
  have : Solid ["*"] := ⟨by decide⟩
  have : Solid ["&"] := ⟨by decide⟩
  unfold Suffix.parser
  infer_instance

instance (type : CType) : InStep keeps (suffixed type) (suffixed type) := by
  unfold suffixed
  infer_instance

instance (isConst : Bool) [Consuming args] [InStep keeps args args] :
    InStep keeps (unqualified args isConst) (unqualified args isConst) := by
  have : Solid ["typename", "struct", "class", "enum", "union"] := ⟨by decide⟩
  unfold unqualified
  infer_instance

instance (isConst : Bool) : Consuming (unqualified args isConst) := by
  unfold unqualified
  infer_instance

instance : InStep false leadingQualifiers leadingQualifiers := by
  have : Solid ["const", "volatile"] := ⟨by decide⟩
  unfold leadingQualifiers
  infer_instance

instance [Consuming args] [InStep keeps args args] : InStep keeps (qualified args) (qualified args) := by
  unfold qualified
  infer_instance

instance : Consuming (qualified args) := by
  unfold qualified
  infer_instance

instance [Consuming args] [InStep false args args] : InStep false (typeArgument args) (typeArgument args) := by
  have hfollows : InStep false (oneOf [',', '>']) (oneOf [',', '>']) := .oneOf (by decide)
  unfold typeArgument
  refine .bind inferInstance fun type => .bind inferInstance fun params => .bind inferInstance fun _ => ?_
  cases params <;> infer_instance

instance [Consuming args] [InStep false args args] : InStep false (argument args) (argument args) := by
  have hvalue := expression_inStep [','] (by decide) true
  unfold argument
  infer_instance

end Args

end CType

open CType

instance (room : Nat) : Consuming (templateArgs room) := by
  cases room with
  | zero => exact inferInstanceAs (Consuming (unrecognized "shallower nesting"))
  | succ room =>
    unfold templateArgs
    infer_instance

theorem templateArgs_inStep (room : Nat) (keeps : Bool) : InStep keeps (templateArgs room) (templateArgs room) := by
  induction room generalizing keeps with
  | zero => exact inferInstanceAs (InStep keeps (unrecognized "shallower nesting") (unrecognized "shallower nesting"))
  | succ room ih =>
    have := ih false
    unfold templateArgs
    infer_instance

instance (room : Nat) : InStep keeps (templateArgs room) (templateArgs room) := templateArgs_inStep room keeps

instance (room : Nat) (isConst : Bool) : InStep keeps (unqualifiedType room isConst) (unqualifiedType room isConst) := by
  unfold unqualifiedType
  infer_instance

instance (room : Nat) : InStep keeps (cType room) (cType room) := by
  unfold cType
  infer_instance

instance (room : Nat) : Consuming (cType room) := by
  unfold cType
  infer_instance

/-! ### Heads, parameters and declarators -/

namespace TemplateParam

instance : InStep false defaultArgument defaultArgument := by
  have hvalue := expression_inStep [','] (by decide) true
  unfold defaultArgument
  infer_instance

instance (head head' : Parser (List TemplateParam)) [InStep false head head'] : InStep false (typeParam head) (typeParam head') := by
  have : Solid ["typename", "class"] := ⟨by decide⟩
  unfold typeParam
  infer_instance

instance (room : Nat) : InStep false (valueParam room) (valueParam room) := by
  unfold valueParam
  infer_instance

end TemplateParam

instance (room : Nat) : InStep false (templateHead room) (templateHead room) := by
  have : Solid ["template"] := ⟨by decide⟩
  unfold templateHead
  refine .recurse (fun head => ⟨_, rfl⟩) fun head head' hhead => ?_
  infer_instance

namespace Declarator

instance : InStep false arrayDimension arrayDimension := by
  have hsize := expression_inStep [] (by decide) false
  unfold arrayDimension
  infer_instance

instance : InStep false arrayDimensions arrayDimensions := by
  unfold arrayDimensions
  infer_instance

instance : InStep false initializer initializer := by
  have hvalue := expression_inStep [','] (by decide) false
  unfold initializer
  infer_instance

instance : InStep false bitWidth bitWidth := by
  have hwidth := expression_inStep [',', ';'] (by decide) false
  unfold bitWidth
  infer_instance

section ParamList

variable {paramList paramList' : Parser ParamList} [InStep false paramList paramList']

instance (result : CType) : InStep false (functionPointer paramList result) (functionPointer paramList' result) := by
  unfold functionPointer
  infer_instance

instance (base : CType) (isNamed : Bool) :
    InStep false (parserWith paramList base isNamed) (parserWith paramList' base isNamed) := by
  unfold parserWith
  refine .bind inferInstance fun _ => .bind inferInstance fun found => ?_
  dsimp only
  infer_instance

end ParamList

end Declarator

instance {paramList paramList' : Parser ParamList} [InStep false paramList paramList'] (room : Nat) :
    InStep false (Param.parserWith paramList room) (Param.parserWith paramList' room) := by
  unfold Param.parserWith
  infer_instance

instance (room : Nat) : InStep false (paramList room) (paramList room) := by
  have : Solid ["void"] := ⟨by decide⟩
  unfold paramList
  refine .recurse (fun list => ⟨_, rfl⟩) fun list list' hlist => ?_
  infer_instance

instance (room : Nat) (base : CType) (isNamed : Bool) :
    InStep false (declarator room base isNamed) (declarator room base isNamed) := by
  unfold declarator
  infer_instance

instance (room : Nat) : InStep false (instances room) (instances room) := by
  unfold instances
  infer_instance

/-! ### Statements -/

namespace Enumerator

instance : InStep false Enumerator.parser Enumerator.parser := by
  have hvalue := expression_inStep [','] (by decide) false
  unfold Enumerator.parser
  infer_instance

instance : InStep false listParser listParser := by
  unfold listParser
  infer_instance

end Enumerator

instance (room : Nat) : InStep false (enumerationDefinition room) (enumerationDefinition room) := by
  have : Solid ["enum"] := ⟨by decide⟩
  have : Solid ["class", "struct"] := ⟨by decide⟩
  unfold enumerationDefinition
  infer_instance

instance (room : Nat) : InStep false (enumeration room) (enumeration room) := by
  unfold enumeration
  infer_instance

instance : Solid ["extern"] := ⟨by decide⟩

instance : Solid ["\"C\""] := ⟨by decide⟩

namespace FunctionSpecifier

instance : InStep keeps FunctionSpecifier.parser FunctionSpecifier.parser := by
  have : Solid ["virtual"] := ⟨by decide⟩
  have : Solid ["static"] := ⟨by decide⟩
  have : Solid ["inline"] := ⟨by decide⟩
  have : Solid ["explicit"] := ⟨by decide⟩
  have : Solid ["constexpr"] := ⟨by decide⟩
  have : Solid ["consteval"] := ⟨by decide⟩
  have : Solid ["friend"] := ⟨by decide⟩
  unfold FunctionSpecifier.parser
  dsimp only [List.map, List.cons_append, List.nil_append]
  infer_instance

instance : Consuming FunctionSpecifier.parser := by
  have : Solid ["virtual"] := ⟨by decide⟩
  have : Solid ["static"] := ⟨by decide⟩
  have : Solid ["inline"] := ⟨by decide⟩
  have : Solid ["explicit"] := ⟨by decide⟩
  have : Solid ["constexpr"] := ⟨by decide⟩
  have : Solid ["consteval"] := ⟨by decide⟩
  have : Solid ["friend"] := ⟨by decide⟩
  unfold FunctionSpecifier.parser
  dsimp only [List.map, List.cons_append, List.nil_append]
  infer_instance

instance : InStep false FunctionSpecifier.listParser FunctionSpecifier.listParser := by
  unfold FunctionSpecifier.listParser
  infer_instance

end FunctionSpecifier

namespace FunctionDecl

instance : InStep keeps (takeWhile1 .run isOperatorChar) (takeWhile1 .run isOperatorChar) := .takeWhile1 (by decide) .run

instance (room : Nat) : InStep keeps (operatorName room) (operatorName room) := by
  have : Solid ["operator"] := ⟨by decide⟩
  have : Solid ["()"] := ⟨by decide⟩
  have : Solid ["[]"] := ⟨by decide⟩
  have : Solid ["new", "delete"] := ⟨by decide⟩
  have : Solid ["\"\""] := ⟨by decide⟩
  unfold operatorName
  infer_instance

instance (room : Nat) : InStep keeps (nameParser room) (nameParser room) := by
  unfold nameParser
  infer_instance

instance (room : Nat) : InStep false (signature room) (signature room) := by
  unfold signature
  infer_instance

instance (room : Nat) : InStep false (Qualifier.parser room) (Qualifier.parser room) := by
  have : Solid ["noexcept"] := ⟨by decide⟩
  have : Solid ["throw"] := ⟨by decide⟩
  have : Solid ["override"] := ⟨by decide⟩
  have : Solid ["final"] := ⟨by decide⟩
  have : Solid ["&&"] := ⟨by decide⟩
  have : Solid ["&"] := ⟨by decide⟩
  have : Solid ["->"] := ⟨by decide⟩
  unfold Qualifier.parser
  infer_instance

instance (room : Nat) : Consuming (Qualifier.parser room) := by
  have : Solid ["noexcept"] := ⟨by decide⟩
  have : Solid ["throw"] := ⟨by decide⟩
  have : Solid ["override"] := ⟨by decide⟩
  have : Solid ["final"] := ⟨by decide⟩
  have : Solid ["&&"] := ⟨by decide⟩
  have : Solid ["&"] := ⟨by decide⟩
  have : Solid ["->"] := ⟨by decide⟩
  unfold Qualifier.parser
  infer_instance

instance : InStep false definition definition := by
  have : Solid ["default"] := ⟨by decide⟩
  have : Solid ["delete"] := ⟨by decide⟩
  unfold definition
  infer_instance

instance (room : Nat) : InStep false (constructorInitializers room) (constructorInitializers room) := by
  unfold constructorInitializers
  infer_instance

instance (room : Nat) : InStep false (bodyParser room) (bodyParser room) := by
  unfold bodyParser
  infer_instance

end FunctionDecl

instance (room : Nat) : InStep false (function room) (function room) := by
  unfold function
  infer_instance

instance : InStep false Variable.Specifier.parser Variable.Specifier.parser := by
  unfold Variable.Specifier.parser
  infer_instance

instance : Consuming Variable.Specifier.parser := by
  unfold Variable.Specifier.parser
  infer_instance

instance (room : Nat) : InStep false (variableStatement room) (variableStatement room) := by
  unfold variableStatement
  infer_instance

instance : Solid ["using"] := ⟨by decide⟩

instance (room : Nat) : InStep false (usingAlias room) (usingAlias room) := by
  have : Solid ["typename"] := ⟨by decide⟩
  unfold usingAlias
  infer_instance

instance : InStep false usingDeclaration usingDeclaration := by
  unfold usingDeclaration
  exact .bind inferInstance fun _ => .noneOf1_bind _ (fun _ => inferInstance) fun _ => ⟨_, rfl⟩

/-! ### Classes -/

section Definition

variable (room : Nat) (definition : Parser Record) [InStep false definition definition]

instance : InStep false (Typedef.Target.parser room definition) (Typedef.Target.parser room definition) := by
  unfold Typedef.Target.parser
  infer_instance

instance : InStep false (typedefWith room definition) (typedefWith room definition) := by
  have : Solid ["typedef"] := ⟨by decide⟩
  unfold typedefWith
  infer_instance

instance : InStep keeps RecordKind.parser RecordKind.parser := by
  have : Solid ["class"] := ⟨by decide⟩
  have : Solid ["struct"] := ⟨by decide⟩
  have : Solid ["union"] := ⟨by decide⟩
  unfold RecordKind.parser
  infer_instance

instance (default : Access) : InStep false (Base.parser room default) (Base.parser room default) := by
  have : Solid ["virtual", "public", "protected", "private"] := ⟨by decide⟩
  unfold Base.parser
  infer_instance

instance (default : Access) : InStep false (Base.listParser room default) (Base.listParser room default) := by
  unfold Base.listParser
  infer_instance

instance : InStep false accessLabel accessLabel := by
  have : Solid ["public", "protected", "private"] := ⟨by decide⟩
  have : Solid ["signals", "Q_SIGNALS"] := ⟨by decide⟩
  have : Solid ["slots", "Q_SLOTS"] := ⟨by decide⟩
  unfold accessLabel
  infer_instance

instance : InStep false (friendClass room) (friendClass room) := by
  have : Solid ["friend"] := ⟨by decide⟩
  unfold friendClass
  infer_instance

instance : InStep keeps recordName recordName := by
  unfold recordName
  infer_instance

instance (body : Parser (List RecordItem)) [InStep false body body] :
    InStep false (recordDefinitionWith room body) (recordDefinitionWith room body) := by
  have : Solid ["final"] := ⟨by decide⟩
  unfold recordDefinitionWith
  infer_instance

instance : InStep false (recordWith room definition) (recordWith room definition) := by
  unfold recordWith
  infer_instance

end Definition

/-! ### Namespaces -/

section Body

variable (body : Parser Scope) [InStep false body body]

instance : Solid ["namespace"] := ⟨by decide⟩

instance : Solid ["inline"] := ⟨by decide⟩

instance : InStep keeps Namespace.aliasStatement Namespace.aliasStatement := by
  have htail : InStep true (noneOf1 ";\x7b\x7d" >>= fun _ => char ';') (noneOf1 ";\x7b\x7d" >>= fun _ => char ';') :=
    .noneOf1_bind _ (fun _ => inferInstance) fun _ => ⟨_, rfl⟩
  unfold Namespace.aliasStatement
  infer_instance

instance : InStep keeps Namespace.segment Namespace.segment := by
  unfold Namespace.segment
  infer_instance

instance : InStep false (Namespace.parserWith body) (Namespace.parserWith body) := by
  unfold Namespace.parserWith
  infer_instance

instance : InStep keeps Scope.explicitInstantiation Scope.explicitInstantiation := by
  have : Solid ["template"] := ⟨by decide⟩
  have htail : InStep true (noneOf1 ";\x7b\x7d" >>= fun _ => char ';') (noneOf1 ";\x7b\x7d" >>= fun _ => char ';') :=
    .noneOf1_bind _ (fun _ => inferInstance) fun _ => ⟨_, rfl⟩
  unfold Scope.explicitInstantiation
  infer_instance

instance : InStep false (Scope.linkageBlock body) (Scope.linkageBlock body) := by
  have : Solid ["\"C++\""] := ⟨by decide⟩
  unfold Scope.linkageBlock
  infer_instance

end Body

end HeaderOutline
