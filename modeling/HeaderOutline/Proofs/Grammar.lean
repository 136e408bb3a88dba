import HeaderOutline.Header
import HeaderOutline.Proofs.Parser.Committed
/-!
# The grammar is bounded

Every parser of the language is an instance of the classes of `Parser.Bounded` and `Parser.Committed`.
The scanners that walk over raw text come first; from them on the proofs are found from the definitions.
-/

set_option synthInstance.maxSize 1024

namespace HeaderOutline

open HeaderOutline.Parser

variable {C : List Text}

/-! ### Gaps, words and raw text -/

theorem behindComment?_suffix {input rest : Text} (hcomment : behindComment? input = some rest) :
    rest <:+ input := by
  unfold behindComment? at hcomment
  split at hcomment
  · next line =>
    split at hcomment
    · next hline =>
      cases hcomment
      exact (Bounded.suffix hline).trans ⟨['/', '/'], rfl⟩
    · cases hcomment
  · next content =>
    obtain ⟨⟨front, back⟩, hsplit, hback⟩ := Option.map_eq_some_iff.1 hcomment
    subst hback
    have hcontent : back <:+ content := ⟨front, Text.splitBefore?_append hsplit⟩
    exact ((List.drop_suffix 2 back).trans hcontent).trans ⟨['/', '*'], rfl⟩
  · cases hcomment

theorem gapEnd_suffix (input : Text) : gapEnd input <:+ input := by
  fun_induction gapEnd input with
  | case1 => exact List.suffix_refl []
  | case2 c rest _ ih => exact ih.trans (List.suffix_cons c rest)
  | case3 c rest _ behind hcomment ih => exact ih.trans (behindComment?_suffix hcomment)
  | case4 => exact List.suffix_refl _

instance : BoundedBy C skipGap where
  within input := gapEnd_suffix input

section Gap

variable {α : Type} {p : Parser α}

instance [BoundedBy C p] : BoundedBy C (afterGap p) := by
  unfold afterGap
  infer_instance

instance [BoundedBy C p] : BoundedBy C (beforeGap p) := by
  unfold beforeGap
  infer_instance

instance [BoundedBy C p] : BoundedBy C (spaced p) := by
  unfold spaced
  infer_instance

instance [Consuming p] : Consuming (afterGap p) := by
  unfold afterGap
  infer_instance

instance [Consuming p] : Consuming (beforeGap p) := by
  unfold beforeGap
  infer_instance

instance [Consuming p] : Consuming (spaced p) := by
  unfold spaced
  infer_instance

instance [Placed p] : Placed (afterGap p) := by
  unfold afterGap
  infer_instance

end Gap

instance : BoundedBy C identifier where
  within
    | [] => trivial
    | c :: rest => by
      simp only [identifier]
      split
      · exact (List.dropWhile_suffix isWordChar).trans (List.suffix_cons c rest)
      · trivial

instance : Consuming identifier where
  lt {input word rest} hok := by
    unfold identifier at hok
    split at hok
    · next c tail =>
      split at hok
      · cases hok
        exact Nat.lt_succ_of_le (List.dropWhile_suffix isWordChar).length_le
      · cases hok
    · cases hok

instance (word : String) : BoundedBy C (keyword word) := by
  unfold keyword
  infer_instance

instance (words : List String) : BoundedBy C (anyKeyword words) := by
  unfold anyKeyword
  induction words with
  | nil => exact inferInstanceAs (BoundedBy C (firstOf []))
  | cons word words ih => exact inferInstanceAs (BoundedBy C (firstOf (keyword word :: words.map keyword)))

instance : BoundedBy C macroName := by
  unfold macroName
  infer_instance

instance : Consuming macroName := by
  unfold macroName
  infer_instance

instance : BoundedBy C plainName := by
  unfold plainName
  infer_instance

theorem blockFrom_append {opener closer : Nat} {depth : Int} {mode : Scan.Mode} {before input text rest : Text}
    (hblock : blockFrom opener closer depth mode before input = some (text, rest)) :
    text ++ rest = before.reverse ++ input := by
  fun_induction blockFrom opener closer depth mode before input with
  | case1 => cases hblock
  | case2 depth mode before c tail _ _ ih =>
    rw [ih hblock, List.reverse_cons, List.append_assoc]
    rfl
  | case3 depth mode before c tail =>
    cases hblock
    rw [List.reverse_cons, List.append_assoc]
    rfl
  | case4 depth mode before c tail _ _ _ ih =>
    rw [ih hblock, List.reverse_cons, List.append_assoc]
    rfl

instance (opener closer : Char) : BoundedBy C (block opener closer) where
  within input := by
    unfold block
    split
    · split
      · next text rest hblock => exact ⟨text, blockFrom_append hblock⟩
      · trivial
    · trivial

instance : BoundedBy C parentheses := by
  unfold parentheses
  infer_instance

instance : BoundedBy C braces := by
  unfold braces
  infer_instance

instance : BoundedBy C angleBrackets := by
  unfold angleBrackets
  infer_instance

theorem expressionFrom_append (stops : Text) (angles : Bool) (opened : List Char) (mode : Scan.Mode)
    (before input : Text) :
    (expressionFrom stops angles opened mode before input).1
      ++ (expressionFrom stops angles opened mode before input).2 = before.reverse ++ input := by
  fun_induction expressionFrom stops angles opened mode before input with
  | case1 => rfl
  | case2 opened mode before c rest _ _ ih =>
    rw [ih, List.reverse_cons, List.append_assoc]
    rfl
  | case3 => rfl
  | case4 opened mode before c rest _ _ _ _ ih =>
    rw [ih, List.reverse_cons, List.append_assoc]
    rfl
  | case5 => rfl

instance (stops : Text) (angles : Bool) : BoundedBy C (expression stops angles) where
  within input := by
    unfold expression
    split
    next taken rest heq =>
    split
    · trivial
    · have happend := expressionFrom_append stops angles [] .code [] input
      rw [heq] at happend
      exact ⟨taken, happend⟩

instance : BoundedBy C attributeMark := by
  unfold attributeMark
  infer_instance

instance : BoundedBy C attributes := by
  unfold attributes
  infer_instance

instance : BoundedBy C staticAssertion := by
  unfold staticAssertion
  infer_instance

instance : Consuming staticAssertion := by
  unfold staticAssertion
  infer_instance

instance : BoundedBy C macroInvocation := by
  unfold macroInvocation
  infer_instance

instance : Consuming macroInvocation := by
  unfold macroInvocation
  infer_instance

/-! ### Comments and directives -/

instance : BoundedBy C Comment.oneLine := by
  unfold Comment.oneLine
  infer_instance

instance : BoundedBy C Comment.blockLines := by
  unfold Comment.blockLines
  infer_instance

instance : BoundedBy C comment := by
  unfold comment
  infer_instance

instance : Consuming Comment.oneLine := by
  have := Consuming.literal "///" (by decide)
  have := Consuming.literal "//!" (by decide)
  have := Consuming.literal "//" (by decide)
  unfold Comment.oneLine
  infer_instance

instance : Consuming Comment.blockLines := by
  have := Consuming.literal "/*" (by decide)
  unfold Comment.blockLines
  infer_instance

instance : Consuming comment := by
  unfold comment
  infer_instance

instance : BoundedBy C leadingComment := by
  unfold leadingComment
  infer_instance

namespace Directive

theorem splitLogicalLine_append (line input : Text) :
    (splitLogicalLine line input).1 ++ (splitLogicalLine line input).2 = input := by
  fun_induction splitLogicalLine line input with
  | case1 => rfl
  | case2 line c rest hend =>
    obtain ⟨hc, -⟩ := Bool.and_eq_true_iff.1 hend
    rw [decide_eq_true_iff] at hc
    rw [hc]
    rfl
  | case3 line c rest _ front back heq ih =>
    rw [heq] at ih
    rw [← ih]
    rfl

instance : BoundedBy C logicalLine where
  within input := ⟨_, splitLogicalLine_append [] input⟩

instance : BoundedBy C macroParams := by
  unfold macroParams
  infer_instance

instance : BoundedBy C define := by
  unfold define
  infer_instance

/-- The body of a directive is read apart, and nothing that is read there leaves it. -/
instance (name body text : Text) : BoundedBy C (ofBody name body text) where
  within rest := by
    unfold ofBody
    dsimp only
    split
    · split <;> exact List.suffix_refl rest
    · split
      · split
        · exact List.suffix_refl rest
        · trivial
        · next trace hdefine => exact absurd hdefine (BoundedBy.ne_failure body trace)
      · split <;> exact List.suffix_refl rest

/-- The number sign, the name and the logical line of a directive. -/
def line : Parser (Text × Text) := do
  let _ ← char '#'
  let _ ← blanks0
  let name ← identifier
  let body ← logicalLine
  pure (name, body)

instance : BoundedBy C line := by
  unfold line
  infer_instance

instance : Consuming line := by
  unfold line
  infer_instance

end Directive

theorem directive_eq (input : Text) : directive input = match Directive.line input with
    | .ok (name, body) rest => Directive.ofBody name body (input.take (input.length - rest.length)) rest
    | .mismatch trace => .mismatch trace
    | .failure trace => .failure trace := rfl

instance : BoundedBy C directive where
  within input := by
    rw [directive_eq]
    split
    · next name body rest hline => exact (BoundedBy.within (C := C) rest).mono (BoundedBy.suffix C hline)
    · trivial
    · next trace hline => exact BoundedBy.reported hline

instance : Consuming directive where
  lt {input found rest} hok := by
    rw [directive_eq] at hok
    split at hok
    · next name body mid hline =>
      exact Nat.lt_of_le_of_lt (Bounded.suffix hok).length_le (Consuming.lt hline)
    · cases hok
    · cases hok

/-! ### Types -/

namespace CType

instance : BoundedBy C decltypeName := by
  unfold decltypeName
  infer_instance

instance : BoundedBy C arithmeticName := by
  unfold arithmeticName
  infer_instance

instance : BoundedBy C pathNames := by
  unfold pathNames
  infer_instance

instance : BoundedBy C baseName := by
  unfold baseName
  infer_instance

section Args

variable {args : Parser (List CType)} [BoundedBy C args]

instance : BoundedBy C (named args) := by
  unfold named
  refine .recurse fun q hq => .bind inferInstance fun base => .bind inferInstance fun found => ?_
  cases found with
  | none => exact inferInstanceAs (BoundedBy C (pure base))
  | some list =>
    refine .bind inferInstance fun inner => ?_
    cases inner <;> infer_instance

instance : BoundedBy C Suffix.parser := by
  unfold Suffix.parser
  infer_instance

instance : Consuming Suffix.parser := by
  have := Consuming.literal "*" (by decide)
  have := Consuming.literal "&" (by decide)
  have := Consuming.literal "..." (by decide)
  have := Consuming.literal "const" (by decide)
  have := Consuming.literal "volatile" (by decide)
  unfold Suffix.parser keyword
  infer_instance

instance (type : CType) : BoundedBy C (suffixed type) := by
  unfold suffixed
  infer_instance

instance (isConst : Bool) : BoundedBy C (unqualified args isConst) := by
  unfold unqualified
  infer_instance

instance : BoundedBy C leadingQualifiers := by
  unfold leadingQualifiers
  infer_instance

instance : BoundedBy C (qualified args) := by
  unfold qualified
  infer_instance

instance : BoundedBy C (typeArgument args) := by
  unfold typeArgument
  refine .bind inferInstance fun type => .bind inferInstance fun params => .bind inferInstance fun _ => ?_
  cases params <;> infer_instance

instance : BoundedBy C (argument args) := by
  unfold argument
  infer_instance

end Args

end CType

open CType

instance {α : Type} : Bounded (tooDeep : Parser α) := .unrecognized (by decide)

instance (room : Nat) : Bounded (templateArgs room) := by
  induction room with
  | zero => exact inferInstanceAs (Bounded tooDeep)
  | succ room ih =>
    unfold templateArgs
    infer_instance

instance (room : Nat) (isConst : Bool) : Bounded (unqualifiedType room isConst) := by
  unfold unqualifiedType
  infer_instance

instance (room : Nat) : Bounded (cType room) := by
  unfold cType
  infer_instance

/-! ### Heads, parameters and declarators -/

namespace TemplateParam

instance : BoundedBy C defaultArgument := by
  unfold defaultArgument
  infer_instance

instance (head : Parser (List TemplateParam)) [BoundedBy C head] : BoundedBy C (typeParam head) := by
  unfold typeParam
  infer_instance

instance (room : Nat) : Bounded (valueParam room) := by
  unfold valueParam
  infer_instance

end TemplateParam

instance (room : Nat) : Bounded (templateHead room) := by
  unfold templateHead
  refine .recurse fun head hhead => ?_
  infer_instance

namespace Declarator

instance : BoundedBy C arrayDimension := by
  unfold arrayDimension
  infer_instance

instance : Consuming arrayDimension := by
  unfold arrayDimension
  infer_instance

instance : BoundedBy C arrayDimensions := by
  unfold arrayDimensions
  infer_instance

instance : BoundedBy C initializer := by
  unfold initializer
  infer_instance

instance : BoundedBy C bitWidth := by
  unfold bitWidth
  infer_instance

section ParamList

variable {paramList : Parser ParamList} [BoundedBy C paramList]

instance (result : CType) : BoundedBy C (functionPointer paramList result) := by
  unfold functionPointer
  infer_instance

instance (base : CType) (isNamed : Bool) : BoundedBy C (parserWith paramList base isNamed) := by
  unfold parserWith
  refine .bind inferInstance fun _ => .bind inferInstance fun found => ?_
  dsimp only
  infer_instance

end ParamList

end Declarator

instance {paramList : Parser ParamList} [Bounded paramList] (room : Nat) :
    Bounded (Param.parserWith paramList room) := by
  unfold Param.parserWith
  infer_instance

instance (room : Nat) : Bounded (paramList room) := by
  unfold paramList
  refine .recurse fun list hlist => ?_
  infer_instance

instance (room : Nat) : Consuming (paramList room) := by
  have hknot : Bounded (paramList room) := inferInstance
  unfold paramList at hknot ⊢
  refine .recurse fun list hlist => ?_
  infer_instance

instance (room : Nat) (base : CType) (isNamed : Bool) : Bounded (declarator room base isNamed) := by
  unfold declarator
  infer_instance

instance (room : Nat) : Bounded (instances room) := by
  unfold instances
  infer_instance

/-! ### Statements -/

namespace Enumerator

instance : BoundedBy C Enumerator.parser := by
  unfold Enumerator.parser
  infer_instance

instance : BoundedBy C listParser := by
  unfold listParser
  infer_instance

instance : Placed listParser := by
  unfold listParser
  infer_instance

end Enumerator

instance (room : Nat) : Bounded (enumerationDefinition room) := by
  have hbody := BoundedBy.commit_expecting (C := committedConstructs) "enumerator" (by decide) (do
    let enumerators ← Enumerator.listParser
    let _ ← char '\x7d'
    pure enumerators)
  unfold enumerationDefinition
  infer_instance

instance (room : Nat) : Bounded (enumeration room) := by
  have hend := BoundedBy.commit_expecting (C := committedConstructs) "`;` after enum" (by decide)
    (afterGap (char ';'))
  unfold enumeration
  infer_instance

instance (room : Nat) : Consuming (enumeration room) := by
  unfold enumeration
  infer_instance

instance : BoundedBy C FunctionSpecifier.parser := by
  unfold FunctionSpecifier.parser
  dsimp only [List.map, List.cons_append, List.nil_append]
  infer_instance

instance : BoundedBy C FunctionSpecifier.listParser := by
  unfold FunctionSpecifier.listParser
  infer_instance

namespace FunctionDecl

instance (room : Nat) : Bounded (operatorName room) := by
  unfold operatorName
  infer_instance

instance (room : Nat) : Bounded (nameParser room) := by
  unfold nameParser
  infer_instance

instance (room : Nat) : Bounded (signature room) := by
  unfold signature
  infer_instance

instance (room : Nat) : Bounded (Qualifier.parser room) := by
  unfold Qualifier.parser
  infer_instance

instance : BoundedBy C definition := by
  unfold definition
  infer_instance

instance (room : Nat) : Bounded (constructorInitializers room) := by
  unfold constructorInitializers
  infer_instance

instance (room : Nat) : Bounded (bodyParser room) := by
  unfold bodyParser
  infer_instance

end FunctionDecl

instance (room : Nat) : Bounded (function room) := by
  unfold function
  infer_instance

instance (room : Nat) : Consuming (function room) := by
  unfold function
  infer_instance

instance : BoundedBy C Variable.Specifier.parser := by
  unfold Variable.Specifier.parser
  infer_instance

instance (room : Nat) : Bounded (variableStatement room) := by
  unfold variableStatement
  infer_instance

instance (room : Nat) : Consuming (variableStatement room) := by
  unfold variableStatement
  infer_instance

instance (room : Nat) : Bounded (usingAlias room) := by
  unfold usingAlias
  infer_instance

instance (room : Nat) : Consuming (usingAlias room) := by
  unfold usingAlias
  infer_instance

instance : BoundedBy C usingDeclaration := by
  unfold usingDeclaration
  infer_instance

instance : Consuming usingDeclaration := by
  unfold usingDeclaration
  infer_instance

/-! ### Classes -/

section Definition

variable (room : Nat) (definition : Parser Record) [Bounded definition]

instance : Bounded (Typedef.Target.parser room definition) := by
  unfold Typedef.Target.parser
  infer_instance

instance : Bounded (typedefWith room definition) := by
  unfold typedefWith
  infer_instance

instance : Consuming (typedefWith room definition) := by
  unfold typedefWith
  infer_instance

instance : BoundedBy C RecordKind.parser := by
  unfold RecordKind.parser
  infer_instance

instance (default : Access) : Bounded (Base.parser room default) := by
  unfold Base.parser
  infer_instance

instance (default : Access) : Bounded (Base.listParser room default) := by
  unfold Base.listParser
  infer_instance

instance : BoundedBy C accessLabel := by
  unfold accessLabel
  infer_instance

instance : Consuming accessLabel := by
  unfold accessLabel
  infer_instance

instance : Bounded (friendClass room) := by
  unfold friendClass
  infer_instance

instance : Consuming (friendClass room) := by
  unfold friendClass
  infer_instance

instance : BoundedBy C recordName := by
  unfold recordName
  infer_instance

instance (body : Parser (List RecordItem)) [Bounded body] : Bounded (recordDefinitionWith room body) := by
  unfold recordDefinitionWith
  infer_instance

instance : Bounded (recordWith room definition) := by
  have hend := BoundedBy.commit_expecting (C := committedConstructs) "`;` after class definition"
    (by decide) (afterGap (char ';'))
  unfold recordWith
  infer_instance

instance : Consuming (recordWith room definition) := by
  unfold recordWith
  infer_instance

instance : Bounded (recordItemWith room definition) := by
  have hmember : Bounded (unrecognized "class member" : Parser RecordItem) := .unrecognized (by decide)
  unfold recordItemWith
  infer_instance

instance : Consuming (recordItemWith room definition) := by
  unfold recordItemWith
  infer_instance

instance : Decided (recordItemWith room definition) := by
  unfold recordItemWith
  infer_instance

end Definition

instance (room : Nat) : Bounded (recordBody room) := by
  induction room with
  | zero => exact inferInstanceAs (Bounded tooDeep)
  | succ room ih =>
    unfold recordBody
    infer_instance

instance (room : Nat) : Decided (recordBody room) := by
  cases room with
  | zero => exact inferInstanceAs (Decided (unrecognized "shallower nesting"))
  | succ room =>
    unfold recordBody
    infer_instance

instance (room : Nat) : Bounded (recordDefinition room) := by
  unfold recordDefinition
  infer_instance

instance (room : Nat) : Bounded (record room) := by
  unfold record
  infer_instance

instance (room : Nat) : Consuming (record room) := by
  unfold record
  infer_instance

instance (room : Nat) : Bounded (typedef room) := by
  unfold typedef
  infer_instance

instance (room : Nat) : Consuming (typedef room) := by
  unfold typedef
  infer_instance

instance (room : Nat) : Bounded (recordItem room) := by
  unfold recordItem
  infer_instance

instance (room : Nat) : Consuming (recordItem room) := by
  unfold recordItem
  infer_instance

instance (room : Nat) : Decided (recordItem room) := by
  unfold recordItem
  infer_instance

/-! ### Scopes -/

section Body

variable (room : Nat) (body : Parser Scope) [Bounded body]

instance : BoundedBy C Namespace.aliasStatement := by
  unfold Namespace.aliasStatement
  infer_instance

instance : Consuming Namespace.aliasStatement := by
  unfold Namespace.aliasStatement
  infer_instance

instance : BoundedBy C Namespace.segment := by
  unfold Namespace.segment
  infer_instance

instance : Bounded (Namespace.parserWith body) := by
  unfold Namespace.parserWith
  infer_instance

instance : Consuming (Namespace.parserWith body) := by
  unfold Namespace.parserWith
  infer_instance

instance : BoundedBy C Scope.explicitInstantiation := by
  unfold Scope.explicitInstantiation
  infer_instance

instance : Consuming Scope.explicitInstantiation := by
  unfold Scope.explicitInstantiation
  infer_instance

instance : Bounded (Scope.linkageBlock body) := by
  unfold Scope.linkageBlock
  infer_instance

instance : Consuming (Scope.linkageBlock body) := by
  unfold Scope.linkageBlock
  infer_instance

instance : Bounded (Scope.itemWith room body) := by
  have hdeclaration : Bounded (unrecognized "declaration" : Parser ScopeItem) := .unrecognized (by decide)
  unfold Scope.itemWith
  infer_instance

instance : Consuming (Scope.itemWith room body) := by
  unfold Scope.itemWith
  infer_instance

instance : Decided (Scope.itemWith room body) := by
  unfold Scope.itemWith
  infer_instance

end Body

instance (isBlock : Bool) : BoundedBy C (Scope.scopeEnd isBlock) := by
  unfold Scope.scopeEnd
  infer_instance

instance (room : Nat) (isBlock : Bool) : Bounded (scope room isBlock) := by
  induction room generalizing isBlock with
  | zero => exact inferInstanceAs (Bounded tooDeep)
  | succ room ih =>
    unfold scope
    infer_instance

instance (room : Nat) (isBlock : Bool) : Decided (scope room isBlock) := by
  cases room with
  | zero => exact inferInstanceAs (Decided (unrecognized "shallower nesting"))
  | succ room =>
    unfold scope
    infer_instance

instance (room : Nat) : Bounded (scopeItem room) := by
  unfold scopeItem
  infer_instance

instance (room : Nat) : Consuming (scopeItem room) := by
  unfold scopeItem
  infer_instance

instance (room : Nat) : Decided (scopeItem room) := by
  unfold scopeItem
  infer_instance

/-! ### Headers -/

theorem Header.withoutByteOrderMark_suffix (source : Text) : Header.withoutByteOrderMark source <:+ source := by
  cases source with
  | nil => exact List.suffix_refl []
  | cons c rest =>
    rw [Header.withoutByteOrderMark]
    split
    · exact List.suffix_cons c rest
    · exact List.suffix_refl _

end HeaderOutline
