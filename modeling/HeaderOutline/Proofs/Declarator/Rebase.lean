import Mathlib
import HeaderOutline.Declarator
import HeaderOutline.Proofs.Parser.Outcome
/-!
# Declarators of a type that has no name yet

The declarators behind a definition are read before it is known what the definition is called. They are read as
declarators of the unnamed type, and `rebase` puts the type in its place later. Reading does not look at the type, and
all that a declarator puts around its base, `rebase` passes through, so both ways come to the same.
-/

namespace HeaderOutline

open HeaderOutline.Parser

variable {base : CType}

namespace CType

/-! ### What is put around the base -/

theorem isConst_rebase (hbase : base.isConst = false) (type : CType) : (type.rebase base).isConst = type.isConst := by
  cases type with
  | path names =>
    cases names with
    | nil => exact hbase
    | cons => rfl
  | _ => rfl

/-- A mark sees of the type behind it only whether it is `const`. -/
theorem Suffix.rebase_apply (hbase : base.isConst = false) (type : CType) (suffix : Suffix) :
    (apply type suffix).rebase base = apply (type.rebase base) suffix := by
  cases suffix with
  | const =>
    rw [apply, apply, isConst_rebase hbase]
    split <;> rfl
  | _ => rfl

theorem rebase_foldl_apply (hbase : base.isConst = false) (type : CType) (suffixes : List Suffix) :
    (suffixes.foldl Suffix.apply type).rebase base = suffixes.foldl Suffix.apply (type.rebase base) := by
  induction suffixes generalizing type with
  | nil => rfl
  | cons suffix suffixes ih => rw [List.foldl_cons, List.foldl_cons, ih, Suffix.rebase_apply hbase]

theorem rebase_withDimensions (type : CType) (sizes : List (Option Text)) :
    (type.withDimensions sizes).rebase base = (type.rebase base).withDimensions sizes := by
  induction sizes generalizing type with
  | nil => rfl
  | cons size sizes ih => exact ih (.array type size)

theorem suffixed_rebase (hbase : base.isConst = false) (type : CType) :
    suffixed (type.rebase base) = (rebase · base) <$> suffixed type := by
  unfold suffixed
  simp only [map_bind, map_pure, rebase_foldl_apply hbase]

end CType

/-! ### The parts of a declarator -/

namespace Declarator

/-- The name with what stands in parentheses around it, behind the marks of `type`. -/
def nameWith (paramList : Parser ParamList) (type : CType) : Parser (Option Text × CType) := firstOf
  [functionPointer paramList type, (fun name => (name, type)) <$> opt (afterGap plainName)]

/-- What follows the name. -/
def clausesWith (paramList : Parser ParamList) (name : Option Text) (type : CType) : Parser Declarator := do
  let params ← opt (afterGap paramList)
  let sizes ← arrayDimensions
  let bitfield ← opt bitWidth
  let defaultValue ← opt initializer
  let declared := match params with
    | none => type
    | some params => .function type params.types
  pure { name, type := declared.withDimensions sizes, bitfield, defaultValue }

theorem clausesWith_name {paramList : Parser ParamList} {type : CType} {name : Option Text} {declared : Declarator}
    {input rest : Text} (hread : clausesWith paramList name type input = .ok declared rest) : declared.name = name := by
  obtain ⟨_, _, -, hread⟩ := bind_eq_ok.1 hread
  obtain ⟨_, _, -, hread⟩ := bind_eq_ok.1 hread
  obtain ⟨_, _, -, hread⟩ := bind_eq_ok.1 hread
  obtain ⟨_, _, -, hread⟩ := bind_eq_ok.1 hread
  cases hread
  rfl

theorem parserWith_eq (paramList : Parser ParamList) (base : CType) (isNamed : Bool) :
    parserWith paramList base isNamed = (do
      let type ← CType.suffixed base
      let (name, type) ← nameWith paramList type
      if isNamed && name.isNone then mismatch (.rule .name) else clausesWith paramList name type) := rfl

/-! ### Declarators -/

def rebase (declared : Declarator) (base : CType) : Declarator := { declared with type := declared.type.rebase base }

/-- The result of the function is rebased, and its parameters stay as they are. -/
theorem functionPointer_rebase (paramList : Parser ParamList) (result : CType) :
    functionPointer paramList (result.rebase base) =
      (fun (name, type) => (name, type.rebase base)) <$> functionPointer paramList result := by
  unfold functionPointer
  simp only [map_bind, map_pure, CType.rebase_withDimensions]
  refine bind_congr fun _ => bind_congr fun _ => bind_congr fun mark => ?_
  by_cases hmark : mark = '*'
  · simp only [if_pos hmark, CType.rebase]
  · simp only [if_neg hmark, CType.rebase]

theorem nameWith_rebase (paramList : Parser ParamList) (type : CType) :
    nameWith paramList (type.rebase base) = (fun (name, type) => (name, type.rebase base)) <$> nameWith paramList type := by
  unfold nameWith
  rw [map_firstOf, List.map_cons, List.map_singleton, functionPointer_rebase, Functor.map_map]

theorem clausesWith_rebase (paramList : Parser ParamList) (name : Option Text) (type : CType) :
    clausesWith paramList name (type.rebase base) = (rebase · base) <$> clausesWith paramList name type := by
  unfold clausesWith
  simp only [map_bind, map_pure, rebase, CType.rebase_withDimensions]
  refine bind_congr fun params => ?_
  cases params <;> rfl

theorem parserWith_rebase (paramList : Parser ParamList) (hbase : base.isConst = false) (type : CType) (isNamed : Bool) :
    parserWith paramList (type.rebase base) isNamed = (rebase · base) <$> parserWith paramList type isNamed := by
  rw [parserWith_eq, parserWith_eq, CType.suffixed_rebase hbase, bind_map_left, map_bind]
  refine bind_congr fun marked => ?_
  rw [nameWith_rebase, bind_map_left, map_bind]
  refine bind_congr fun (name, declared) => ?_
  dsimp only
  split
  · rfl
  · exact clausesWith_rebase paramList name declared

end Declarator

/-- A declarator of a base that is put in later is the declarator of that base: reading stops at the same place for the
same reason, or what is read is the same but for the type, which rebasing makes the same. A base that is `const` is
another matter, since a second `const` behind it says nothing new. -/
theorem declarator_rebase (room : Nat) {base : CType} (hbase : base.isConst = false) (isNamed : Bool) (input : Text) :
    declarator room base isNamed input = (declarator room .unnamed isNamed input).map (Declarator.rebase · base) := by
  rw [← map_apply]
  exact congrFun (Declarator.parserWith_rebase (paramList room) hbase .unnamed isNamed) input

set_option maxRecDepth 20000 in
/-- An array of pointers to functions that return a constant pointer to a `T*`. -/
theorem declarator_rebase_functionPointers : (CType.pointer (.path [['T']])).isConst = false ∧
    declarator 1 (.pointer (.path [['T']])) true "* const (*f[2])(char), g".toList = .ok
      { name := some ['f']
        type := .array (.pointer (.function (.const (.pointer (.pointer (.path [['T']])))) [.path ["char".toList]])) (some ['2'])
        bitfield := none
        defaultValue := none } ", g".toList := by
  have hbase : (CType.pointer (.path [['T']])).isConst = false := rfl
  have hunnamed : declarator 1 .unnamed true "* const (*f[2])(char), g".toList = .ok
      { name := some ['f']
        type := .array (.pointer (.function (.const (.pointer .unnamed)) [.path ["char".toList]])) (some ['2'])
        bitfield := none
        defaultValue := none } ", g".toList := by cbv
  refine ⟨hbase, ?_⟩
  rw [declarator_rebase 1 hbase, hunnamed]
  rfl

end HeaderOutline
