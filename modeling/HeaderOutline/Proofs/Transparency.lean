import HeaderOutline.Proofs.Parser.Curtailed
import HeaderOutline.Proofs.Report
/-!
# The nesting limit is transparent

Where levels are already open, fewer may be opened. Every parser that takes the levels that are left is cut
short by taking fewer of them, and by nothing else: no rule of the grammar looks at their number but to fail.
So whatever is read with levels open is read in the same way without them, and no text is read in another way
because of the limit.
-/

set_option synthInstance.maxSize 1024

namespace HeaderOutline

open HeaderOutline.Parser

/-! ### Gaps -/

section Gap

variable {α : Type} {p q : Parser α} [Curtails p q]

instance : Curtails (afterGap p) (afterGap q) := by
  unfold afterGap
  infer_instance

instance : Curtails (beforeGap p) (beforeGap q) := by
  unfold beforeGap
  infer_instance

instance : Curtails (spaced p) (spaced q) := by
  unfold spaced
  infer_instance

end Gap

/-! ### Types -/

namespace CType

section Args

variable {args args' : Parser (List CType)} [Curtails args args']

instance : Curtails (named args) (named args') := by
  unfold named
  refine .recurse fun p q hnamed => .bind inferInstance fun base => .bind inferInstance fun found => ?_
  cases found with
  | none => exact inferInstanceAs (Curtails (pure base) (pure base))
  | some list =>
    refine .bind inferInstance fun inner => ?_
    cases inner <;> infer_instance

instance (isConst : Bool) : Curtails (unqualified args isConst) (unqualified args' isConst) := by
  unfold unqualified
  infer_instance

instance : Curtails (qualified args) (qualified args') := by
  unfold qualified
  infer_instance

instance : Curtails (typeArgument args) (typeArgument args') := by
  unfold typeArgument
  infer_instance

instance : Curtails (argument args) (argument args') := by
  unfold argument
  infer_instance

end Args

end CType

open CType

/-- The levels that are left may be any number, and more of them are left on the other side. -/
instance templateArgs_curtails (room more : Nat) : Curtails (templateArgs room) (templateArgs (room + more)) := by
  induction room with
  | zero => exact .tooDeep _
  | succ room ih =>
    rw [Nat.succ_add]
    unfold templateArgs
    infer_instance

section Room

variable (room more : Nat)

instance (isConst : Bool) : Curtails (unqualifiedType room isConst) (unqualifiedType (room + more) isConst) := by
  unfold unqualifiedType
  infer_instance

instance : Curtails (cType room) (cType (room + more)) := by
  unfold cType
  infer_instance

/-! ### Heads, parameters and declarators -/

namespace TemplateParam

instance {head head' : Parser (List TemplateParam)} [Curtails head head'] :
    Curtails (typeParam head) (typeParam head') := by
  unfold typeParam
  infer_instance

instance : Curtails (valueParam room) (valueParam (room + more)) := by
  unfold valueParam
  infer_instance

end TemplateParam

instance : Curtails (templateHead room) (templateHead (room + more)) := by
  unfold templateHead
  refine .recurse fun head head' hhead => ?_
  infer_instance

section ParamList

variable {paramList paramList' : Parser ParamList} [Curtails paramList paramList']

instance (result : CType) :
    Curtails (Declarator.functionPointer paramList result) (Declarator.functionPointer paramList' result) := by
  unfold Declarator.functionPointer
  infer_instance

instance (base : CType) (isNamed : Bool) :
    Curtails (Declarator.parserWith paramList base isNamed) (Declarator.parserWith paramList' base isNamed) := by
  unfold Declarator.parserWith
  refine .bind inferInstance fun type => .bind inferInstance fun found => ?_
  dsimp only
  infer_instance

instance : Curtails (Param.parserWith paramList room) (Param.parserWith paramList' (room + more)) := by
  unfold Param.parserWith
  infer_instance

end ParamList

instance : Curtails (paramList room) (paramList (room + more)) := by
  unfold paramList
  refine .recurse fun list list' hlist => ?_
  infer_instance

instance (base : CType) (isNamed : Bool) :
    Curtails (declarator room base isNamed) (declarator (room + more) base isNamed) := by
  unfold declarator
  infer_instance

instance : Curtails (instances room) (instances (room + more)) := by
  unfold instances
  infer_instance

/-! ### Statements -/

instance : Curtails (enumerationDefinition room) (enumerationDefinition (room + more)) := by
  unfold enumerationDefinition
  infer_instance

instance : Curtails (enumeration room) (enumeration (room + more)) := by
  unfold enumeration
  infer_instance

namespace FunctionDecl

instance : Curtails (operatorName room) (operatorName (room + more)) := by
  unfold operatorName
  infer_instance

instance : Curtails (nameParser room) (nameParser (room + more)) := by
  unfold nameParser
  infer_instance

instance : Curtails (signature room) (signature (room + more)) := by
  unfold signature
  infer_instance

instance : Curtails (Qualifier.parser room) (Qualifier.parser (room + more)) := by
  unfold Qualifier.parser
  infer_instance

instance : Curtails (constructorInitializers room) (constructorInitializers (room + more)) := by
  unfold constructorInitializers
  infer_instance

instance : Curtails (bodyParser room) (bodyParser (room + more)) := by
  unfold bodyParser
  infer_instance

end FunctionDecl

instance : Curtails (function room) (function (room + more)) := by
  unfold function
  infer_instance

instance : Curtails (variableStatement room) (variableStatement (room + more)) := by
  unfold variableStatement
  infer_instance

instance : Curtails (usingAlias room) (usingAlias (room + more)) := by
  unfold usingAlias
  infer_instance

/-! ### Classes -/

section Definition

variable {definition definition' : Parser Record} [Curtails definition definition']

instance : Curtails (Typedef.Target.parser room definition) (Typedef.Target.parser (room + more) definition') := by
  unfold Typedef.Target.parser
  infer_instance

instance : Curtails (typedefWith room definition) (typedefWith (room + more) definition') := by
  unfold typedefWith
  infer_instance

instance (default : Access) : Curtails (Base.parser room default) (Base.parser (room + more) default) := by
  unfold Base.parser
  infer_instance

instance (default : Access) : Curtails (Base.listParser room default) (Base.listParser (room + more) default) := by
  unfold Base.listParser
  infer_instance

instance : Curtails (friendClass room) (friendClass (room + more)) := by
  unfold friendClass
  infer_instance

instance {body body' : Parser (List RecordItem)} [Curtails body body'] :
    Curtails (recordDefinitionWith room body) (recordDefinitionWith (room + more) body') := by
  unfold recordDefinitionWith
  infer_instance

instance : Curtails (recordWith room definition) (recordWith (room + more) definition') := by
  unfold recordWith
  infer_instance

instance : Curtails (recordItemWith room definition) (recordItemWith (room + more) definition') := by
  unfold recordItemWith
  infer_instance

end Definition

instance : Curtails (recordBody room) (recordBody (room + more)) := by
  induction room with
  | zero => exact .tooDeep _
  | succ room ih =>
    rw [Nat.succ_add]
    unfold recordBody
    infer_instance

instance : Curtails (recordDefinition room) (recordDefinition (room + more)) := by
  unfold recordDefinition
  infer_instance

instance : Curtails (record room) (record (room + more)) := by
  unfold record
  infer_instance

instance : Curtails (typedef room) (typedef (room + more)) := by
  unfold typedef
  infer_instance

/-! ### Scopes -/

section Body

variable {body body' : Parser Scope} [Curtails body body']

instance : Curtails (Namespace.parserWith body) (Namespace.parserWith body') := by
  unfold Namespace.parserWith
  infer_instance

instance : Curtails (Scope.linkageBlock body) (Scope.linkageBlock body') := by
  unfold Scope.linkageBlock
  infer_instance

instance : Curtails (Scope.itemWith room body) (Scope.itemWith (room + more) body') := by
  unfold Scope.itemWith
  infer_instance

end Body

instance (isBlock : Bool) : Curtails (scope room isBlock) (scope (room + more) isBlock) := by
  induction room generalizing isBlock with
  | zero => exact .tooDeep _
  | succ room ih =>
    rw [Nat.succ_add]
    unfold scope
    infer_instance

instance : Curtails (header room) (header (room + more)) where
  outcome input := Curtails.outcome (p := Header.ofScope <$> scope room false)
    (q := Header.ofScope <$> scope (room + more) false) (Header.withoutByteOrderMark input)

end Room

instance (room : Nat) : Bounded (header room) where
  within source := (BoundedBy.within (p := Header.ofScope <$> scope room false) _).mono
    (Header.withoutByteOrderMark_suffix source)

/-! ### Levels that are held -/

/-- Where `limited` does not do what `full` does, it fails, and says no more than that a level is missing at a
place in the input. So whatever it reads or leaves to another reading, `full` reads or leaves in the same way. -/
structure Parser.Transparent {α : Type} (limited full : Parser α) : Prop where
  outcome : ∀ input, limited input = full input ∨
    ∃ place, place <:+ input ∧ limited input = .failure [⟨place, .context "shallower nesting".toList⟩]
  same : ∀ input, (∀ trace, limited input ≠ .failure trace) → limited input = full input

theorem Parser.Curtails.transparent {α : Type} {p q : Parser α} [Bounded p] (hcurtails : Curtails p q) :
    Transparent p q where
  outcome input := by
    refine (hcurtails.outcome input).imp_right fun ⟨place, hdeep⟩ => ⟨place, ?_, hdeep⟩
    obtain ⟨mark, more, heq, hplace⟩ := (BoundedBy.reported (C := committedConstructs) hdeep).placed
    cases heq
    exact hplace
  same input hnone := (hcurtails.outcome input).resolve_right fun ⟨_, hdeep⟩ => hnone _ hdeep

theorem Nesting.room_add {outer inner : Nesting} (hheld : outer.held ≤ inner.held) :
    outer.room = inner.room + (inner.held - outer.held) := by
  have hinner := inner.held_le
  unfold room
  omega

/-- With more levels held, a scope, a header or a template argument list is read as with fewer, or not at all. -/
theorem nesting_transparent {outer inner : Nesting} (hheld : outer.held ≤ inner.held) :
    (∀ isBlock, Transparent (scope inner.room isBlock) (scope outer.room isBlock)) ∧
    Transparent (header inner.room) (header outer.room) ∧
    Transparent (templateArgs inner.room) (templateArgs outer.room) := by
  rw [Nesting.room_add hheld]
  refine ⟨fun isBlock => ?_, ?_, ?_⟩
  · exact Curtails.transparent inferInstance
  · exact Curtails.transparent inferInstance
  · exact Curtails.transparent inferInstance

set_option maxRecDepth 20000 in
/-- One level is left, and the header takes it: a block inside is read only where none is held. -/
theorem nesting_transparent_block : Nesting.outermost.held ≤ ({ held := 63 } : Nesting).held ∧
    Transparent (header ({ held := 63 } : Nesting).room) (header Nesting.outermost.room) ∧
    header ({ held := 63 } : Nesting).room "namespace a \x7b\x7d".toList =
      .failure [⟨"\x7d".toList, .context "shallower nesting".toList⟩] ∧
    header Nesting.outermost.room "namespace a \x7b\x7d".toList =
      .ok (Header.ofScope { namespaces := [{ name := some ['a'], isInline := false, scope := {} }] }) [] := by
  have hheld : Nesting.outermost.held ≤ ({ held := 63 } : Nesting).held := by decide
  refine ⟨hheld, (nesting_transparent hheld).2.1, ?_, ?_⟩
  · cbv
  · cbv

end HeaderOutline
