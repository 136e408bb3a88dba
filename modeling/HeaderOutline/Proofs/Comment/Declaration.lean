import HeaderOutline.Record.Parser
import HeaderOutline.Proofs.Comment.Leading
/-!
# Declarations without their comments

Every kind of declaration that takes the comment in front of it is read in the same way whatever the comment
says, and only the comments of what is declared differ.
-/

namespace HeaderOutline

open HeaderOutline.Parser

/-! ### Leaving comments out -/

def FunctionDecl.withComment (comment : Option Text) (function : FunctionDecl) : FunctionDecl := { function with comment }

def Variable.withComment (comment : Option Text) (declared : Variable) : Variable := { declared with comment }

def Enumeration.withComment (comment : Option Text) (enumeration : Enumeration) : Enumeration :=
  { enumeration with comment }

def Alias.withComment (comment : Option Text) (declared : Alias) : Alias := { declared with comment }

def Record.withComment (comment : Option Text) (record : Record) : Record := { record with comment }

def Typedef.uncommented (statement : Typedef) : Typedef where
  aliases := statement.aliases.map (Alias.withComment none)
  record := statement.record.map (Record.withComment none)
  enumeration := statement.enumeration.map (Enumeration.withComment none)

namespace RecordItem

/-- The item without its comments. What stands inside a class or enumeration keeps its own. -/
def uncommented : RecordItem → RecordItem
  | .method function => .method (function.withComment none)
  | .members declared => .members (declared.map (Variable.withComment none))
  | .record inner => .record (inner.withComment none)
  | .enumeration inner => .enumeration (inner.withComment none)
  | .typedef statement => .typedef (statement.uncommented)
  | .usingAlias declared => .usingAlias (declared.withComment none)
  | item => item

end RecordItem

/-! ### Declarations -/

theorem Parser.map_ite {α β : Type} (f : α → β) (property : Prop) [Decidable property] (p q : Parser α) :
    (f <$> if property then p else q) = if property then f <$> p else f <$> q := apply_ite (f <$> ·) property p q

theorem usingAlias_takesComment (room : Nat) : TakesComment (usingAlias room) Alias.withComment := by
  unfold usingAlias
  refine .leadingComment fun comment => ?_
  simp only [map_bind, map_pure]
  rfl

theorem FunctionDecl.foldl_apply_withComment (comment : Option Text) (qualifiers : List Qualifier)
    (declared : FunctionDecl) :
    qualifiers.foldl Qualifier.apply (declared.withComment comment) =
      (qualifiers.foldl Qualifier.apply declared).withComment comment := by
  induction qualifiers generalizing declared with
  | nil => rfl
  | cons qualifier qualifiers ih =>
    have hstep : Qualifier.apply (declared.withComment comment) qualifier =
        (Qualifier.apply declared qualifier).withComment comment := by
      cases qualifier <;> rfl
    rw [List.foldl_cons, List.foldl_cons, hstep, ih]

theorem function_takesComment (room : Nat) : TakesComment (function room) FunctionDecl.withComment := by
  unfold function
  refine .leadingComment fun comment => ?_
  simp only [map_bind]
  refine bind_congr fun templateParams => bind_congr fun leading => bind_congr fun ⟨api, trailing, signature⟩ => ?_
  simp only [map_pure, ← FunctionDecl.foldl_apply_withComment]
  rfl

theorem variableStatement_takesComment (room : Nat) :
    TakesComment (variableStatement room) fun comment => List.map (Variable.withComment comment) := by
  unfold variableStatement
  refine .leadingComment fun comment => ?_
  have hvars (modifiers : List VariableModifier) (declarators : List Declarator) :
      declarators.map (Variable.ofDeclarator modifiers comment) =
        (declarators.map (Variable.ofDeclarator modifiers none)).map (Variable.withComment comment) := by
    rw [List.map_map]
    rfl
  simp only [map_bind, map_ite, map_pure, hvars]

theorem enumerationDefinition_takesComment (room : Nat) :
    TakesComment (enumerationDefinition room) Enumeration.withComment := by
  unfold enumerationDefinition
  refine .leadingComment fun comment => ?_
  simp only [map_bind, map_pure]
  rfl

theorem enumeration_takesComment (room : Nat) : TakesComment (enumeration room) Enumeration.withComment := by
  unfold enumeration
  refine (enumerationDefinition_takesComment room).bind fun comment enumeration => ?_
  simp only [map_bind, map_ite, map_pure]
  rfl

/-! ### Classes -/

/-- The head of a class, up to its brace or to the semicolon of a forward declaration. -/
def recordHead (room : Nat) : Parser Record := do
  let comment ← leadingComment
  let templateParams ← opt (templateHead room)
  let kind ← beforeGap RecordKind.parser
  let _ ← attributes
  let api ← opt do
    let api ← macroName
    let _ ← lookahead (afterGap (identifier.filter fun word => word != "final".toList))
    pure api
  let _ ← afterGap attributes
  let name ← opt (beforeGap recordName)
  let specialization ← opt (beforeGap (inside <$> angleBrackets))
  let isFinal ← opt (beforeGap (keyword "final"))
  let bases ← opt (Base.listParser room kind.defaultAccess)
  let forward ← if name.isSome then opt (lookahead (afterGap (char ';'))) else pure none
  pure
    { name, kind, api
      templateParams := templateParams.getD []
      specialization
      bases := bases.getD []
      isFinal := isFinal.isSome
      isForwardDeclaration := forward.isSome
      comment }

set_option synthInstance.maxSize 1024 in
instance (room : Nat) : Bounded (recordHead room) := by
  unfold recordHead
  infer_instance

/-- A definition is its head with the items of its body. -/
theorem recordDefinitionWith_eq (room : Nat) (body : Parser (List RecordItem)) :
    recordDefinitionWith room body = (do
      let head ← recordHead room
      if head.isForwardDeclaration then pure head
      else
        let _ ← afterGap (char '\x7b')
        let items ← body
        pure (head.addItems head.kind.defaultAccess items)) := by
  unfold recordDefinitionWith recordHead
  simp only [bind_assoc, pure_bind]
  refine bind_congr fun comment => bind_congr fun templateParams => bind_congr fun kind => bind_congr fun _ =>
    bind_congr fun api => bind_congr fun _ => bind_congr fun name => bind_congr fun specialization =>
    bind_congr fun isFinal => bind_congr fun bases => ?_
  cases name with
  | none =>
    simp only [Option.isSome_none, Bool.false_eq_true, if_false, pure_bind]
  | some name =>
    simp only [Option.isSome_some, if_true, bind_assoc, pure_bind]
    refine bind_congr fun forward => ?_
    cases forward <;> rfl

/-- The access that is current behind an item. -/
def RecordItem.accessBehind (access : Access) : RecordItem → Access
  | .access label => label
  | _ => access

theorem Record.addItems_cons (record : Record) (access : Access) (item : RecordItem) (items : List RecordItem) :
    record.addItems access (item :: items) =
      (record.addItem access item).addItems (item.accessBehind access) items := rfl

theorem Record.addItems_withComment (comment : Option Text) (record : Record) (access : Access)
    (items : List RecordItem) :
    (record.withComment comment).addItems access items = (record.addItems access items).withComment comment := by
  induction items generalizing record access with
  | nil => rfl
  | cons item items ih =>
    have hitem : (record.withComment comment).addItem access item = (record.addItem access item).withComment comment := by
      cases item <;> rfl
    rw [addItems_cons, addItems_cons, hitem, ih]

theorem recordHead_takesComment (room : Nat) : TakesComment (recordHead room) Record.withComment := by
  unfold recordHead
  refine .leadingComment fun comment => ?_
  simp only [map_bind, map_ite, map_pure, pure_bind]
  rfl

theorem recordDefinitionWith_takesComment (room : Nat) (body : Parser (List RecordItem)) :
    TakesComment (recordDefinitionWith room body) Record.withComment := by
  rw [recordDefinitionWith_eq]
  refine (recordHead_takesComment room).bind fun comment head => ?_
  simp only [map_bind, map_ite, map_pure, ← Record.addItems_withComment]
  rfl

theorem recordWith_takesComment (room : Nat) (body : Parser (List RecordItem)) :
    TakesComment (recordWith room (recordDefinitionWith room body)) Record.withComment := by
  unfold recordWith
  refine (recordDefinitionWith_takesComment room body).bind fun comment record => ?_
  simp only [map_bind, map_ite, map_pure]
  rfl

/-! ### Typedefs -/

/-- A definition in place keeps the comment that it has of its own. -/
def Typedef.withComment (comment : Option Text) (statement : Typedef) : Typedef where
  aliases := statement.aliases.map (Alias.withComment comment)
  record := statement.record.map fun record => record.withComment (record.comment <|> comment)
  enumeration := statement.enumeration.map fun enumeration =>
    enumeration.withComment (enumeration.comment <|> comment)

theorem Typedef.ofDeclarators_eq (comment : Option Text) (target : Target) (declarators : List (Text × CType)) :
    ofDeclarators comment target declarators = (ofDeclarators none target declarators).withComment comment := by
  cases target with
  | type written => simp [ofDeclarators, withComment, Alias.withComment]
  | record record =>
    simp [ofDeclarators, withComment, Alias.withComment, Record.withComment]
  | enumeration enumeration => simp [ofDeclarators, withComment, Alias.withComment, Enumeration.withComment]

theorem typedefWith_takesComment (room : Nat) (definition : Parser Record) :
    TakesComment (typedefWith room definition) Typedef.withComment := by
  unfold typedefWith
  refine .leadingComment fun comment => ?_
  simp only [map_bind, map_pure, ← Typedef.ofDeclarators_eq]

theorem Typedef.uncommented_withComment (comment : Option Text) (statement : Typedef) :
    (statement.withComment comment).uncommented = statement.uncommented := by
  simp only [uncommented, withComment, List.map_map, Option.map_map]
  rfl

end HeaderOutline
