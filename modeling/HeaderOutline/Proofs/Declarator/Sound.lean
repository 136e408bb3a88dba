import HeaderOutline.Alias
import HeaderOutline.Enumeration
import HeaderOutline.Function
import HeaderOutline.Variable
import HeaderOutline.Proofs.CType.Sound
/-!
# Well-formed declarations

All types of a declaration that is read are well-formed: those of its declarators, parameters and template parameters.
-/

namespace HeaderOutline

open HeaderOutline.Parser HeaderOutline.CType

variable {source : Text} {room : Nat}

/-! ### Template parameters -/

/-- The types of the parameters that stand for values. -/
def TemplateParam.types (params : List TemplateParam) : List CType := params.filterMap TemplateParam.type

theorem TemplateParam.yields_valueParam : Yields source (fun param => ∀ type ∈ param.type, type.Sound False) (valueParam room) :=
  (yields_cType room).bind fun type htype => .behind fun _ => .behind fun _ => .pure (by simpa using htype)

theorem TemplateParam.yields_typeParam (head : Parser (List TemplateParam)) [Bounded head] :
    Yields source (fun param => ∀ type ∈ param.type, type.Sound False) (typeParam head) :=
  .behind fun _ => .behind fun _ => .behind fun _ => .behind fun _ => .behind fun _ => .pure (by simp)

theorem yields_templateHead :
    Yields source (fun params => ∀ type ∈ TemplateParam.types params, type.Sound False) (templateHead room) := by
  refine .recurse (inferInstanceAs (Bounded (templateHead room))) fun head hbounded _ => .behind fun _ => .behind fun _ => ?_
  have hparam : Yields source (fun param => ∀ type ∈ param.type, type.Sound False)
      (firstOf [TemplateParam.typeParam head, TemplateParam.valueParam room]) := by
    refine .firstOf fun p hp => ?_
    simp only [List.mem_cons, List.not_mem_nil, or_false] at hp
    rcases hp with rfl | rfl
    · exact TemplateParam.yields_typeParam head
    · exact TemplateParam.yields_valueParam
  refine hparam.spaced.sepBy.bind fun params hparams => .behind fun _ => .behind fun _ => .pure fun type htype => ?_
  obtain ⟨param, hparam, htype⟩ := List.mem_filterMap.1 htype
  exact hparams param hparam type htype

/-- Without a template head there are no parameters. -/
theorem TemplateParam.sound_getD {found : Option (List TemplateParam)}
    (hfound : ∀ params ∈ found, ∀ type ∈ types params, type.Sound False) : ∀ type ∈ types (found.getD []), type.Sound False := by
  cases found with
  | none => exact List.forall_mem_nil _
  | some params => exact hfound params rfl

/-! ### Declarators -/

/-- All parameters have well-formed types. -/
def ParamList.Sound (list : ParamList) : Prop := ∀ param ∈ list.params, param.type.Sound False

theorem ParamList.Sound.types {list : ParamList} (hlist : list.Sound) : ∀ type ∈ list.types, type.Sound False :=
  List.forall_mem_map.2 hlist

theorem ParamList.Sound.typesWithDots {list : ParamList} (hlist : list.Sound) : ∀ type ∈ list.typesWithDots, type.Sound False := by
  refine List.forall_mem_append.2 ⟨hlist.types, ?_⟩
  split <;> simp

namespace Declarator

section ParamList

variable {paramList : Parser ParamList} [Bounded paramList] (hparamList : Yields source ParamList.Sound paramList)

include hparamList

theorem yields_functionPointer (result : CType) :
    Yields source (fun found => MadeOf result found.2) (functionPointer paramList result) := by
  -- From the inside out: the parameters, the mark in the parentheses, and the dimensions behind the name.
  refine .behind fun _ => .behind fun _ => .behind fun mark => .behind fun name => .behind fun sizes => .behind fun _ =>
    hparamList.afterGap.bind fun params hparams => .pure ?_
  have hfunction : MadeOf result (.function result params.typesWithDots) := .function .self hparams.typesWithDots
  refine MadeOf.trans ?_ (madeOf_withDimensions _ sizes)
  split
  · exact hfunction.pointer
  · exact hfunction.reference

omit hparamList in
theorem bounded_nameWith (paramList : Parser ParamList) [Bounded paramList] (type : CType) : Bounded (nameWith paramList type) := by
  unfold nameWith
  infer_instance

theorem yields_nameWith (type : CType) : Yields source (fun found => MadeOf type found.2) (nameWith paramList type) := by
  refine .firstOf fun p hp => ?_
  simp only [List.mem_cons, List.not_mem_nil, or_false] at hp
  rcases hp with rfl | rfl
  · exact yields_functionPointer hparamList type
  · exact Yields.any.map fun name _ => .self

theorem yields_clausesWith (name : Option Text) (type : CType) :
    Yields source (fun declared => MadeOf type declared.type) (clausesWith paramList name type) := by
  refine hparamList.afterGap.opt.bind fun params hparams => .behind fun sizes => .behind fun _ => .behind fun _ => .pure ?_
  refine MadeOf.trans ?_ (madeOf_withDimensions _ sizes)
  cases params with
  | none => exact .self
  | some params => exact .function .self (hparams params rfl).types

/-- A declarator puts marks, parameter lists and dimensions around its base. -/
theorem yields_parserWith (base : CType) (isNamed : Bool) :
    Yields source (fun declared => MadeOf base declared.type) (parserWith paramList base isNamed) := by
  have hbounded := bounded_nameWith paramList
  rw [parserWith_eq]
  refine (yields_suffixed base).bind fun type htype => (yields_nameWith hparamList type).bind fun found hfound => ?_
  refine .ite (fun _ => .mismatch _) fun _ => (yields_clausesWith hparamList found.1 found.2).mono fun declared hdeclared => ?_
  exact htype.trans (hfound.trans hdeclared)

/-- The type of a parameter may be qualified in front of its declarator. -/
theorem yields_param : Yields source (fun param => param.type.Sound False) (Param.parserWith paramList room) :=
  .behind fun _ => .behind fun isConst => (yields_unqualifiedType room isConst).bind fun type htype =>
    (yields_parserWith hparamList type false).bind fun _ hdeclared => .pure (hdeclared.sound htype)

end ParamList

end Declarator

theorem yields_paramList : Yields source ParamList.Sound (paramList room) := by
  refine .recurse (inferInstanceAs (Bounded (paramList room))) fun inner hbounded hinner => .behind fun _ => ?_
  have hparams : Yields source (fun params => ∀ param ∈ params, param.type.Sound False) (firstOf
      [(do
        let _ ← keyword "void"
        let _ ← lookahead (afterGap (char ')'))
        pure []),
       sepBy (spaced (char ',')) (Param.parserWith inner room)]) := by
    refine .firstOf fun p hp => ?_
    simp only [List.mem_cons, List.not_mem_nil, or_false] at hp
    rcases hp with rfl | rfl
    · exact .behind fun _ => .behind fun _ => .pure (List.forall_mem_nil _)
    · exact (Declarator.yields_param hinner).sepBy
  exact hparams.bind fun params hparams => .behind fun _ => .behind fun _ => .pure hparams

theorem yields_declarator (base : CType) (isNamed : Bool) :
    Yields source (fun declared => MadeOf base declared.type) (declarator room base isNamed) :=
  Declarator.yields_parserWith yields_paramList base isNamed

/-! ### Enumerations -/

/-- The type of the enumeration, if one is written. -/
def Enumeration.Sound (enumeration : Enumeration) : Prop := ∀ type ∈ enumeration.type, type.Sound False

theorem yields_enumerationDefinition : Yields source Enumeration.Sound (enumerationDefinition room) := by
  refine .behind fun _ => .behind fun _ => .behind fun _ => .behind fun _ => .behind fun _ => ?_
  exact (Yields.opt (.behind fun _ => yields_cType room)).bind fun _ htype => .last fun _ => htype

theorem yields_enumeration : Yields source Enumeration.Sound (enumeration room) :=
  yields_enumerationDefinition.bind fun _ hdefinition => .ite (fun _ => .behind fun _ => .pure hdefinition)
    fun _ => .behind fun _ => .last fun _ => hdefinition

/-! ### Functions -/

/-- The types of a function: its return type and those of its parameters and template parameters. -/
def FunctionDecl.types (function : FunctionDecl) : List CType :=
  function.returnType.toList ++ function.params.map Param.type ++ TemplateParam.types function.templateParams

def FunctionDecl.Sound (function : FunctionDecl) : Prop := ∀ type ∈ function.types, type.Sound False

namespace FunctionDecl

theorem sound_iff {function : FunctionDecl} : function.Sound ↔ (∀ type ∈ function.returnType, type.Sound False) ∧
    (∀ param ∈ function.params, param.type.Sound False) ∧
    ∀ type ∈ TemplateParam.types function.templateParams, type.Sound False := by
  simp [Sound, types, or_imp, forall_and]

theorem yields_signature : Yields source (fun found => ∀ type ∈ found.returnType, type.Sound False) (signature room) := by
  refine .firstOf fun p hp => ?_
  simp only [List.mem_cons, List.not_mem_nil, or_false] at hp
  rcases hp with rfl | rfl
  · exact (yields_cType room).bind fun type htype => .behind fun _ => .behind fun _ => .pure (by simpa using htype)
  · exact .behind fun _ => .behind fun _ => .pure (by simp)

namespace Qualifier

/-- A trailing return type is a well-formed type. -/
def Sound (qualifier : Qualifier) : Prop := ∀ type, qualifier = .returnType type → type.Sound False

theorem yields_qualifier : Yields source Sound (parser room) := by
  refine .firstOf fun p hp => ?_
  simp only [List.mem_cons, List.not_mem_nil, or_false] at hp
  have hother {p : Parser Qualifier} (hp : Yields source (fun found => ∀ type, found ≠ .returnType type) p) :
      Yields source Sound p := hp.mono fun _ hfound type heq => absurd heq (hfound type)
  rcases hp with rfl | rfl | rfl | rfl | rfl | rfl | rfl | rfl | rfl
  · exact hother (Yields.any.map fun _ _ _ => by simp)
  · exact hother (Yields.any.map fun _ _ _ => by simp)
  · exact hother (.behind fun _ => .behind fun _ => .pure fun _ => by simp)
  · exact hother (.behind fun _ => .behind fun _ => .pure fun _ => by simp)
  · exact hother (Yields.any.map fun _ _ _ => by simp)
  · exact hother (Yields.any.map fun _ _ _ => by simp)
  · exact hother (Yields.any.map fun _ _ _ => by simp)
  · refine .behind fun _ => (yields_cType room).afterGap.bind fun type htype => .pure ?_
    rintro _ ⟨⟩
    exact htype
  · exact hother (Yields.any.map fun _ _ _ => by simp)

theorem sound_apply {function : FunctionDecl} {qualifier : Qualifier} (hfunction : function.Sound) (hqualifier : qualifier.Sound) :
    (apply function qualifier).Sound := by
  cases qualifier with
  | returnType type =>
    rw [sound_iff] at hfunction ⊢
    exact ⟨by rintro _ ⟨⟩; exact hqualifier type rfl, hfunction.2⟩
  | _ => exact hfunction

theorem sound_foldl_apply {function : FunctionDecl} {qualifiers : List Qualifier} (hfunction : function.Sound)
    (hqualifiers : ∀ qualifier ∈ qualifiers, qualifier.Sound) : (qualifiers.foldl apply function).Sound := by
  induction qualifiers generalizing function with
  | nil => exact hfunction
  | cons qualifier qualifiers ih =>
    obtain ⟨hqualifier, hqualifiers⟩ := List.forall_mem_cons.1 hqualifiers
    exact ih (sound_apply hfunction hqualifier) hqualifiers

end Qualifier

end FunctionDecl

open FunctionDecl in
theorem yields_function : Yields source FunctionDecl.Sound (function room) := by
  -- Types are read in the template head, the signature, the parameter list and the qualifiers.
  refine .behind fun _ => yields_templateHead.opt.bind fun templateParams htemplate => .behind fun leading => ?_
  have hsignature : Yields source (fun found => ∀ type ∈ found.2.2.returnType, type.Sound False) (firstOf
      [(fun signature => (none, [], signature)) <$> signature room,
       (do
        let api ← beforeGap macroName
        let trailing ← FunctionSpecifier.listParser
        let signature ← signature room
        pure (some api, trailing, signature))]) := by
    refine .firstOf fun p hp => ?_
    simp only [List.mem_cons, List.not_mem_nil, or_false] at hp
    rcases hp with rfl | rfl
    · exact yields_signature.map fun _ hfound => hfound
    · exact .behind fun _ => .behind fun _ => yields_signature.bind fun _ hfound => .pure hfound
  refine hsignature.bind fun found hfound => yields_paramList.afterGap.bind fun params hparams =>
    Qualifier.yields_qualifier.afterGap.many.bind fun qualifiers hqualifiers => .behind fun _ => .last fun _ => ?_
  refine Qualifier.sound_foldl_apply ?_ hqualifiers
  exact FunctionDecl.sound_iff.2 ⟨hfound, hparams, TemplateParam.sound_getD htemplate⟩

/-! ### Variables -/

theorem yields_variableStatement :
    Yields source (fun declared => ∀ variable_ ∈ declared, variable_.type.Sound False) (variableStatement room) := by
  refine .behind fun _ => .behind fun _ => .behind fun _ => .behind fun specifiers => ?_
  refine (yields_unqualifiedType room _).bind fun type htype => (yields_declarator type false).bind fun first hfirst => ?_
  refine .ite (fun _ => .mismatch _) fun _ => ?_
  have hothers : Yields source (fun declared => MadeOf type.declaredBase declared.type) (do
      let _ ← spaced (char ',')
      declarator room type.declaredBase false) := .behind fun _ => yields_declarator _ false
  refine hothers.many.bind fun others hothers => .last fun _ => List.forall_mem_map.2 ?_
  exact List.forall_mem_cons.2 ⟨hfirst.sound htype, fun declared hdeclared => (hothers declared hdeclared).sound htype.declaredBase⟩

/-! ### Aliases -/

theorem yields_usingAlias : Yields source (fun declared => (∀ type ∈ TemplateParam.types declared.templateParams, type.Sound False) ∧
    declared.type.Sound False) (usingAlias room) := by
  refine .behind fun _ => yields_templateHead.opt.bind fun templateParams htemplate => .behind fun _ => .behind fun _ =>
    .behind fun _ => .behind fun _ => .behind fun _ => (yields_cType room).bind fun type htype =>
    (yields_declarator type false).bind fun declared hdeclared => .last fun _ => ?_
  exact ⟨TemplateParam.sound_getD htemplate, hdeclared.sound htype⟩

end HeaderOutline
