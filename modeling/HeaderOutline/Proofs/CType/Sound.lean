import HeaderOutline.Proofs.Declarator.Rebase
import HeaderOutline.Proofs.Parser.Yields
/-!
# Well-formed types

In a well-formed type no `const` stands directly on another one, and the unnamed type does not occur. What a declarator
puts around a type keeps it well-formed, and so does a name that takes the place of the unnamed type. Every type that is
read is well-formed.
-/

namespace HeaderOutline

namespace CType

open HeaderOutline.Parser

variable {source : Text} {condition : Prop} {part type base result element target outer inner pattern : CType}
  {args params : List CType}

/-! ### Types inside types -/

/-- The types that a type is directly made of. -/
def children : CType → List CType
  | .path _ | .value _ => []
  | .generic base args => base :: args
  | .member outer inner => [outer, inner]
  | .pointer target | .reference target => [target]
  | .const type => [type]
  | .function result params => result :: params
  | .array element _ => [element]
  | .pack pattern => [pattern]

/-- The part stands somewhere in the type, at any depth. -/
inductive Occurs (part : CType) : CType → Prop where
  | here : Occurs part part
  | inside {type child : CType} (hchild : child ∈ type.children) (hpart : Occurs part child) : Occurs part type

theorem Occurs.trans (hinner : Occurs part inner) (houter : Occurs inner outer) : Occurs part outer := by
  induction houter with
  | here => exact hinner
  | inside hchild _ ih => exact .inside hchild ih

/-- No `const` stands directly on another one, and the unnamed type occurs only under the condition. -/
structure Sound (condition : Prop) (type : CType) : Prop where
  const : ∀ inner, ¬Occurs (.const (.const inner)) type
  unnamed : Occurs .unnamed type → condition

namespace Sound

theorem mono {condition' : Prop} (htype : type.Sound condition) (hmono : condition → condition') : type.Sound condition' :=
  ⟨htype.const, fun hunnamed => hmono (htype.unnamed hunnamed)⟩

theorem of_occurs (htype : type.Sound condition) (hpart : Occurs part type) : part.Sound condition :=
  ⟨fun inner hinner => htype.const inner (hinner.trans hpart), fun hunnamed => htype.unnamed (hunnamed.trans hpart)⟩

end Sound

/-- A type is well-formed if its children are, and if it is neither a `const` on another one nor the unnamed type. -/
theorem sound_iff : type.Sound condition ↔ (∀ child ∈ type.children, child.Sound condition) ∧
    (type.isConst = true → ∀ child ∈ type.children, child.isConst = false) ∧ (type = .unnamed → condition) := by
  constructor
  · intro htype
    refine ⟨fun child hchild => htype.of_occurs (.inside hchild .here), fun hconst child hchild => ?_, fun hunnamed => ?_⟩
    · cases type <;> cases hconst
      obtain rfl := List.mem_singleton.1 hchild
      cases child <;> first | rfl | exact absurd .here (htype.const _)
    · exact htype.unnamed (hunnamed ▸ .here)
  · rintro ⟨hchildren, hconst, hunnamed⟩
    constructor
    · intro inner hinner
      cases hinner with
      | here => cases hconst rfl (.const inner) List.mem_cons_self
      | inside hchild hinner => exact (hchildren _ hchild).const inner hinner
    · intro hoccurs
      cases hoccurs with
      | here => exact hunnamed rfl
      | inside hchild hoccurs => exact (hchildren _ hchild).unnamed hoccurs

section Constructors

@[simp] theorem sound_path {names : List Text} : (path names).Sound condition ↔ (names = [] → condition) := by
  rw [sound_iff]
  simp [children, isConst, unnamed]

@[simp] theorem sound_value {text : Text} : (value text).Sound condition := by
  rw [sound_iff]
  simp [children, isConst, unnamed]

@[simp] theorem sound_generic : (generic base args).Sound condition ↔
    base.Sound condition ∧ ∀ arg ∈ args, arg.Sound condition := by
  rw [sound_iff]
  simp [children, isConst, unnamed]

@[simp] theorem sound_member : (member outer inner).Sound condition ↔ outer.Sound condition ∧ inner.Sound condition := by
  rw [sound_iff]
  simp [children, isConst, unnamed]

@[simp] theorem sound_pointer : (pointer target).Sound condition ↔ target.Sound condition := by
  rw [sound_iff]
  simp [children, isConst, unnamed]

@[simp] theorem sound_reference : (reference target).Sound condition ↔ target.Sound condition := by
  rw [sound_iff]
  simp [children, isConst, unnamed]

@[simp] theorem sound_const : (const type).Sound condition ↔ type.Sound condition ∧ type.isConst = false := by
  rw [sound_iff]
  simp [children, isConst, unnamed]

@[simp] theorem sound_function : (function result params).Sound condition ↔
    result.Sound condition ∧ ∀ param ∈ params, param.Sound condition := by
  rw [sound_iff]
  simp [children, isConst, unnamed]

@[simp] theorem sound_array {size : Option Text} : (array element size).Sound condition ↔ element.Sound condition := by
  rw [sound_iff]
  simp [children, isConst, unnamed]

@[simp] theorem sound_pack : (pack pattern).Sound condition ↔ pattern.Sound condition := by
  rw [sound_iff]
  simp [children, isConst, unnamed]

end Constructors

theorem Sound.declaredBase (htype : type.Sound condition) : type.declaredBase.Sound condition := by
  fun_induction CType.declaredBase type with
  | case1 target ih => exact ih (sound_pointer.1 htype)
  | case2 target ih => exact ih (sound_reference.1 htype)
  | case3 element size ih => exact ih (sound_array.1 htype)
  | case4 type _ ih => exact ih (sound_const.1 htype).1
  | case5 => exact htype
  | case6 => exact htype

/-! ### What a declarator makes of its base -/

/-- The type is the base with marks, parameter lists and dimensions around it. -/
inductive MadeOf (base : CType) : CType → Prop where
  | self : MadeOf base base
  | pointer {target : CType} (htarget : MadeOf base target) : MadeOf base (.pointer target)
  | reference {target : CType} (htarget : MadeOf base target) : MadeOf base (.reference target)
  | const {type : CType} (htype : MadeOf base type) (hconst : type.isConst = false) : MadeOf base (.const type)
  | function {result : CType} {params : List CType} (hresult : MadeOf base result)
      (hparams : ∀ param ∈ params, param.Sound False) : MadeOf base (.function result params)
  | array {element : CType} (helement : MadeOf base element) (size : Option Text) : MadeOf base (.array element size)
  | pack {pattern : CType} (hpattern : MadeOf base pattern) : MadeOf base (.pack pattern)

namespace MadeOf

theorem trans (hinner : MadeOf base inner) (houter : MadeOf inner outer) : MadeOf base outer := by
  induction houter with
  | self => exact hinner
  | pointer _ ih => exact ih.pointer
  | reference _ ih => exact ih.reference
  | const _ hconst ih => exact ih.const hconst
  | function _ hparams ih => exact ih.function hparams
  | array _ size ih => exact ih.array size
  | pack _ ih => exact ih.pack

theorem sound (htype : MadeOf base type) (hbase : base.Sound condition) : type.Sound condition := by
  induction htype with
  | self => exact hbase
  | pointer _ ih => exact sound_pointer.2 ih
  | reference _ ih => exact sound_reference.2 ih
  | const _ hconst ih => exact sound_const.2 ⟨ih, hconst⟩
  | function _ hparams ih => exact sound_function.2 ⟨ih, fun param hparam => (hparams param hparam).mono False.elim⟩
  | array _ size ih => exact sound_array.2 ih
  | pack _ ih => exact sound_pack.2 ih

/-- What is put in the place of the unnamed type gets all that was put around it. -/
theorem rebase (htype : MadeOf .unnamed type) (hbase : base.isConst = false) : MadeOf base (type.rebase base) := by
  induction htype with
  | self => exact .self
  | pointer _ ih => exact ih.pointer
  | reference _ ih => exact ih.reference
  | @const type _ hconst ih => exact ih.const ((isConst_rebase hbase type).trans hconst)
  | function _ hparams ih => exact ih.function hparams
  | array _ size ih => exact ih.array size
  | pack _ ih => exact ih.pack

end MadeOf

theorem Suffix.madeOf_apply (type : CType) (suffix : Suffix) : MadeOf type (apply type suffix) := by
  cases suffix with
  | pointer => exact .pointer .self
  | reference => exact .reference .self
  | pack => exact .pack .self
  | const =>
    rw [apply]
    split
    · exact .self
    · next hconst => exact .const .self (Bool.eq_false_iff.2 hconst)
  | volatile => exact .self

theorem madeOf_foldl_apply (type : CType) (suffixes : List Suffix) : MadeOf type (suffixes.foldl Suffix.apply type) := by
  induction suffixes generalizing type with
  | nil => exact .self
  | cons suffix suffixes ih => exact (Suffix.madeOf_apply type suffix).trans (ih _)

theorem madeOf_withDimensions (element : CType) (sizes : List (Option Text)) : MadeOf element (element.withDimensions sizes) := by
  induction sizes generalizing element with
  | nil => exact .self
  | cons size sizes ih => exact (MadeOf.array .self size).trans (ih _)

/-! ### Types that are read -/

theorem yields_pathNames : Yields source (· ≠ []) pathNames :=
  .behind fun leading => (Yields.any.sepBy1).bind fun names hnames => by
    refine .pure ?_
    cases leading with
    | none => exact hnames.1
    | some _ => exact List.cons_ne_nil _ _

theorem yields_baseName : Yields source (fun type => type.Sound False ∧ type.isConst = false) baseName := by
  refine .firstOf fun p hp => ?_
  simp only [List.mem_cons, List.not_mem_nil, or_false] at hp
  rcases hp with rfl | rfl | rfl
  · exact Yields.any.map fun text _ => ⟨by simp, rfl⟩
  · exact Yields.any.map fun text _ => ⟨by simp, rfl⟩
  · exact yields_pathNames.map fun names hnames => ⟨by simpa using hnames, rfl⟩

theorem yields_suffixed (type : CType) : Yields source (MadeOf type) (suffixed type) :=
  .behind fun suffixes => .pure (madeOf_foldl_apply type suffixes)

section Args

variable {args : Parser (List CType)} [Bounded args] (hargs : Yields source (fun types => ∀ type ∈ types, type.Sound False) args)

include hargs

theorem yields_named : Yields source (fun type => type.Sound False ∧ type.isConst = false) (named args) := by
  refine .recurse (inferInstanceAs (Bounded (named args))) fun inner _ hinner => ?_
  refine yields_baseName.bind fun base hbase => hargs.afterGap.opt.bind fun found hfound => ?_
  cases found with
  | none => exact .pure hbase
  | some types =>
    have hgeneric : (generic base types).Sound False := sound_generic.2 ⟨hbase.1, hfound types rfl⟩
    refine (Yields.opt (.behind fun _ => hinner)).bind fun member hmember => ?_
    cases member with
    | none => exact .pure ⟨hgeneric, rfl⟩
    | some member => exact .pure ⟨sound_member.2 ⟨hgeneric, (hmember member rfl).1⟩, rfl⟩

theorem yields_unqualified (isConst : Bool) : Yields source (Sound False) (unqualified args isConst) := by
  refine .behind fun _ => (yields_named hargs).bind fun type htype => (yields_suffixed _).mono fun found hfound => ?_
  refine hfound.sound ?_
  cases isConst with
  | false => exact htype.1
  | true => exact sound_const.2 htype

theorem yields_qualified : Yields source (Sound False) (qualified args) :=
  .behind fun isConst => yields_unqualified hargs isConst

theorem yields_typeArgument : Yields source (Sound False) (typeArgument args) := by
  refine (yields_qualified hargs).bind fun type htype => ?_
  have hparams : Yields source (fun params => ∀ param ∈ params, param.Sound False)
      (sepBy (spaced (char ',')) (spaced (qualified args))) := (yields_qualified hargs).spaced.sepBy
  refine (Yields.opt (.behind fun _ => hparams.bind fun params hparams => .behind fun _ => .pure hparams)).bind
    fun found hfound => .behind fun _ => ?_
  cases found with
  | none => exact .pure htype
  | some params => exact .pure (sound_function.2 ⟨htype, hfound params rfl⟩)

theorem yields_argument : Yields source (Sound False) (argument args) := by
  refine .firstOf fun p hp => ?_
  simp only [List.mem_cons, List.not_mem_nil, or_false] at hp
  rcases hp with rfl | rfl
  · exact yields_typeArgument hargs
  · exact Yields.any.map fun text _ => sound_value

end Args

end CType

open HeaderOutline.Parser HeaderOutline.CType

theorem yields_templateArgs {source : Text} (room : Nat) :
    Yields source (fun types => ∀ type ∈ types, type.Sound False) (templateArgs room) := by
  induction room with
  | zero => exact .unrecognized _
  | succ room ih => exact .behind fun _ => (yields_argument ih).spaced.sepBy.bind fun types htypes => .behind fun _ => .pure htypes

theorem yields_unqualifiedType {source : Text} (room : Nat) (isConst : Bool) :
    Yields source (Sound False) (unqualifiedType room isConst) := yields_unqualified (yields_templateArgs room) isConst

theorem yields_cType {source : Text} (room : Nat) : Yields source (Sound False) (cType room) :=
  yields_qualified (yields_templateArgs room)

end HeaderOutline
