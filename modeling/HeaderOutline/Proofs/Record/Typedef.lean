import Mathlib.Data.List.InsertIdx
import HeaderOutline.Proofs.Comment.Declaration
import HeaderOutline.Proofs.Declarator.Rebase
import HeaderOutline.Proofs.Source.Definition
/-!
# Typedefs of definitions

A typedef may define a record or an enumeration in place. Behind the brace it is read the same with and without a name
in front. A definition without a name takes that of the first declarator that declares the definition itself, and the
statement is the one with this name in front of the brace, but for the alias that the declarator would have been.
-/

namespace HeaderOutline

open HeaderOutline.Parser HeaderOutline.CType

variable {room : Nat} {input rest : Text}

/-! ### Records and their heads -/

namespace Record

def withName (name : Option Text) (record : Record) : Record := { record with name }

/-- The record without its contents. -/
def head (record : Record) : Record :=
  { record with methods := {}, members := {}, records := {}, enumerations := {}, aliases := {}, friends := [] }

theorem addItem_withName (name : Option Text) (record : Record) (access : Access) (item : RecordItem) :
    (record.withName name).addItem access item = (record.addItem access item).withName name := by
  cases item <;> rfl

theorem addItems_withName (name : Option Text) (record : Record) (access : Access) (items : List RecordItem) :
    (record.withName name).addItems access items = (record.addItems access items).withName name := by
  induction items generalizing record access with
  | nil => rfl
  | cons item items ih => rw [addItems_cons, addItem_withName, ih, addItems_cons]

theorem head_addItem (record : Record) (access : Access) (item : RecordItem) :
    (record.addItem access item).head = record.head := by
  cases item <;> rfl

/-- The contents make no difference to the head. -/
theorem head_addItems (record : Record) (access : Access) (items : List RecordItem) :
    (record.addItems access items).head = record.head := by
  induction items generalizing record access with
  | nil => rfl
  | cons item items ih => rw [addItems_cons, ih, head_addItem]

end Record

namespace Typedef

/-! ### What a typedef defines in place -/

inductive DefinitionKind where
  | record (kind : RecordKind)
  | enumeration

/-- The definition under another name. -/
def Target.withName (name : Option Text) : Target → Target
  | .type written => .type written
  | .record found => .record (found.withName name)
  | .enumeration found => .enumeration { found with name }

namespace DefinitionKind

def word : DefinitionKind → Text
  | .record kind => kind.word
  | .enumeration => "enum".toList

/-- The definition that is read behind the brace. It has no name. -/
def body (room : Nat) : DefinitionKind → Parser Target
  | .record kind => (fun items => .record ((Record.empty kind none).addItems kind.defaultAccess items)) <$> recordBody room
  | .enumeration => (fun enumerators => .enumeration (.ofEnumerators none enumerators)) <$> Enumeration.body

/-- A definition of this kind that has neither name nor comment. -/
def IsBare : DefinitionKind → Target → Prop
  | .record kind, .record found => found.head = Record.empty kind none
  | .enumeration, .enumeration found => found.name = none ∧ found.comment = none
  | _, _ => False

variable {kind : DefinitionKind} {target : Target}

theorem isBare_body (hbody : kind.body room input = .ok target rest) : kind.IsBare target := by
  cases kind with
  | record kind =>
    obtain ⟨items, -, rfl⟩ := map_eq_ok.1 hbody
    exact Record.head_addItems _ _ items
  | enumeration =>
    obtain ⟨enumerators, -, rfl⟩ := map_eq_ok.1 hbody
    exact ⟨rfl, rfl⟩

theorem IsBare.base_withName (htarget : kind.IsBare target) (name : Option Text) : (target.withName name).base = .unnamed := by
  cases kind <;> cases target <;> first | rfl | exact htarget.elim

end DefinitionKind

section Target

variable (layout : Layout) {name : Option Text} (hname : ∀ word ∈ name, isPlainName word = true)

include hname

theorem target_record (room : Nat) (kind : RecordKind) (inner : Text) :
    Target.parser room (recordDefinition room) (kind.word ++ (layout.blank ++ layout.block name inner)) =
      ((DefinitionKind.record kind).body room inner).map (Target.withName name) := by
  have hdefinition := recordDefinition_block layout room (recordBody room) kind hname inner
  have hwhole (items : List RecordItem) : (!((Record.empty kind name).addItems kind.defaultAccess items).isForwardDeclaration) = true := by
    have hhead := congrArg Record.isForwardDeclaration (Record.head_addItems (Record.empty kind name) kind.defaultAccess items)
    have hforward : ((Record.empty kind name).addItems kind.defaultAccess items).isForwardDeclaration = false := hhead
    rw [hforward]
    rfl
  have hrecord : (Target.record <$> (recordDefinition room).filter fun record => !record.isForwardDeclaration)
      (kind.word ++ (layout.blank ++ layout.block name inner)) =
        ((DefinitionKind.record kind).body room inner).map (Target.withName name) := by
    rw [map_apply, Parser.filter, recordDefinition, hdefinition, DefinitionKind.body, map_apply]
    cases recordBody room inner with
    | ok items mid =>
      have hnamed := Record.addItems_withName name (Record.empty kind none) kind.defaultAccess items
      dsimp only [Outcome.map]
      rw [if_pos (hwhole items), Target.withName, ← hnamed]
      rfl
    | mismatch trace => rfl
    | failure trace => rfl
  rw [Target.parser, firstOf_of_ne_mismatch, hrecord]
  rw [hrecord]
  intro trace hmismatch
  exact Decided.ne_mismatch inner trace (map_eq_mismatch.1 (Outcome.map_eq_mismatch.1 hmismatch))

theorem target_enumeration (room : Nat) (inner : Text) :
    Target.parser room (recordDefinition room) ("enum".toList ++ (layout.blank ++ layout.block name inner)) =
      (DefinitionKind.enumeration.body room inner).map (Target.withName name) := by
  have hdefinition := enumerationDefinition_block layout room hname inner
  have htoken : StartsToken ("enum".toList ++ (layout.blank ++ layout.block name inner)) := startsToken_word (by decide) _
  have hhead : headWord ("enum".toList ++ (layout.blank ++ layout.block name inner)) = "enum".toList :=
    headWord_append (isWordChar_of_isIdentifier (by decide)) (endsWord_spaces layout.isSpaces_blank layout.blank_ne _)
  have hrecord : Mismatches (recordDefinition room) ("enum".toList ++ (layout.blank ++ layout.block name inner)) :=
    recordDefinitionWith_of_ne _ htoken (by rw [hhead]; decide) (by rw [hhead]; decide)
  have henumeration : (Target.enumeration <$> (enumerationDefinition room).filter fun enumeration =>
      !enumeration.isForwardDeclaration) ("enum".toList ++ (layout.blank ++ layout.block name inner)) =
        (DefinitionKind.enumeration.body room inner).map (Target.withName name) := by
    rw [map_apply, Parser.filter, hdefinition, DefinitionKind.body, map_apply]
    cases Enumeration.body inner <;> rfl
  rw [Target.parser, firstOf_of_mismatch (Mismatches.map (.filter hrecord)), firstOf_of_ne_mismatch, henumeration]
  rw [henumeration]
  intro trace hmismatch
  exact Enumeration.body_ne_mismatch inner trace (map_eq_mismatch.1 (Outcome.map_eq_mismatch.1 hmismatch))

theorem target_block (room : Nat) (kind : DefinitionKind) (inner : Text) :
    Target.parser room (recordDefinition room) (kind.word ++ (layout.blank ++ layout.block name inner)) =
      (kind.body room inner).map (Target.withName name) := by
  cases kind with
  | record kind => exact target_record layout hname room kind inner
  | enumeration => exact target_enumeration layout hname room inner

end Target

/-! ### What is read behind the definition -/

/-- The declarators of a typedef, up to its semicolon. -/
def declarators (room : Nat) (base : CType) : Parser (List Declarator) := do
  let first ← afterGap (declarator room base true)
  let others ← many do
    let _ ← spaced (char ',')
    declarator room base.declaredBase true
  let _ ← afterGap (char ';')
  pure (first :: others)

/-- The names that are declared, with their types. -/
def declaredNames (declarators : List Declarator) : List (Text × CType) :=
  declarators.filterMap fun declared => declared.name.map fun name => (name, declared.type)

theorem declaredNames_cons {declared : Declarator} {list : List Declarator} {name : Text} (hname : declared.name = some name) :
    declaredNames (declared :: list) = (name, declared.type) :: declaredNames list :=
  List.filterMap_cons_some (by rw [hname]; rfl)

theorem typedefWith_eq (room : Nat) (definition : Parser Record) : typedefWith room definition = (do
    let comment ← leadingComment
    let _ ← beforeGap (keyword "typedef")
    let target ← Target.parser room definition
    let declarators ← declarators room target.base
    pure (ofDeclarators comment target (declaredNames declarators))) := by
  unfold typedefWith declarators
  simp only [bind_assoc, pure_bind]
  rfl

/-- A definition and the declarators behind it. -/
def DefinitionKind.statement (room : Nat) (kind : DefinitionKind) : Parser (Target × List Declarator) := do
  let target ← kind.body room
  let declarators ← declarators room .unnamed
  pure (target, declarators)

theorem statement_of_ok (kind : DefinitionKind) {target : Target} {list : List Declarator} {mid : Text}
    (hbody : kind.body room input = .ok target mid) (hlist : declarators room .unnamed mid = .ok list rest) :
    kind.statement room input = .ok (target, list) rest := by
  rw [DefinitionKind.statement, bind_of_ok hbody, bind_of_ok hlist]
  rfl

/-- A definition in a typedef, with or without a name. What stands inside is left open, and so is what follows. -/
def DefinitionKind.text (layout : Layout) (kind : DefinitionKind) (name : Option Text) (inner : Text) : Text :=
  "typedef".toList ++ (layout.blank ++ (kind.word ++ (layout.blank ++ layout.block name inner)))

/-- The text holds the comment for whatever it stands in front of. -/
def Introduces (front : Text) (comment : Option Text) : Prop :=
  ∀ tail, StartsToken tail → leadingComment (front ++ tail) = .ok comment tail

theorem DefinitionKind.isIdentifier_word (kind : DefinitionKind) : isIdentifier kind.word = true := by
  cases kind with
  | record kind => exact kind.isIdentifier_word
  | enumeration => decide

/-- With and without a name the same is read behind the brace, and it is the statement in both cases. -/
theorem typedef_text (layout : Layout) {front : Text} {comment : Option Text} (hfront : Introduces front comment)
    (room : Nat) (kind : DefinitionKind) (name : Option Text) (hname : ∀ word ∈ name, isPlainName word = true) (inner : Text) :
    typedef room (front ++ kind.text layout name inner) = (kind.statement room inner).map fun (target, declarators) =>
      ofDeclarators comment (target.withName name) (declaredNames declarators) := by
  have hword := startsToken_word kind.isIdentifier_word (layout.blank ++ layout.block name inner)
  have hends : EndsWord (layout.blank ++ (kind.word ++ (layout.blank ++ layout.block name inner))) :=
    endsWord_spaces layout.isSpaces_blank layout.blank_ne _
  have hgap : gapEnd (layout.blank ++ (kind.word ++ (layout.blank ++ layout.block name inner))) =
      kind.word ++ (layout.blank ++ layout.block name inner) := gapEnd_append_token layout.isSpaces_blank hword
  have htarget := target_block layout hname room kind inner
  unfold DefinitionKind.text
  generalize kind.word ++ (layout.blank ++ layout.block name inner) = definition at hends hgap htarget ⊢
  generalize layout.blank ++ definition = behind at hends hgap ⊢
  have hcomment := hfront ("typedef".toList ++ behind) (startsToken_word (by decide) _)
  have hkeyword := beforeGap_of_ok (keyword_append "typedef" hends)
  rw [hgap] at hkeyword
  rw [typedef, typedefWith_eq, bind_of_ok hcomment, bind_of_ok hkeyword, bind_apply, htarget]
  rw [DefinitionKind.statement, bind_apply]
  cases hbody : kind.body room inner with
  | ok target mid =>
    dsimp only [Outcome.map, Outcome.andThen]
    rw [(DefinitionKind.isBare_body hbody).base_withName, bind_apply, bind_apply]
    cases declarators room .unnamed mid <;> rfl
  | mismatch trace => rfl
  | failure trace => rfl

/-! ### Aliases -/

theorem isSome_name_of_declarator {base : CType} {declared : Declarator}
    (hread : declarator room base true input = .ok declared rest) : declared.name.isSome = true := by
  rw [declarator, Declarator.parserWith_eq] at hread
  obtain ⟨_, _, -, hread⟩ := bind_eq_ok.1 hread
  obtain ⟨⟨name, _⟩, _, -, hread⟩ := bind_eq_ok.1 hread
  dsimp only at hread
  split at hread
  · cases hread
  · next hname =>
    rw [Declarator.clausesWith_name hread]
    cases name with
    | none => exact absurd rfl hname
    | some name => rfl

theorem isSome_name_of_declarators {base : CType} {list : List Declarator}
    (hread : declarators room base input = .ok list rest) : ∀ declared ∈ list, declared.name.isSome = true := by
  obtain ⟨first, _, hfirst, hread⟩ := bind_eq_ok.1 hread
  obtain ⟨others, _, hothers, hread⟩ := bind_eq_ok.1 hread
  obtain ⟨_, _, -, hread⟩ := bind_eq_ok.1 hread
  cases hread
  refine List.forall_mem_cons.2 ⟨isSome_name_of_declarator hfirst, forall_mem_of_many (fun hfurther => ?_) hothers⟩
  obtain ⟨_, _, -, hfurther⟩ := bind_eq_ok.1 hfurther
  exact isSome_name_of_declarator hfurther

/-- The alias of a name for a type, in which `base` takes the place of the definition. -/
def aliasOf (comment : Option Text) (base : CType) (name : Text) (type : CType) : Alias :=
  { name, type := type.rebase base, kind := .typedef, templateParams := [], comment }

/-- The alias that a declarator stands for. -/
def aliasOf? (comment : Option Text) (base : CType) (declared : Declarator) : Option Alias :=
  declared.name.map fun name => aliasOf comment base name declared.type

/-- Every declarator that has a name becomes an alias. -/
theorem map_aliasOf (comment : Option Text) (base : CType) {list : List Declarator}
    (hlist : ∀ declared ∈ list, declared.name.isSome = true) :
    ((declaredNames list).map fun (name, type) => aliasOf comment base name type).map some =
      list.map (aliasOf? comment base) := by
  induction list with
  | nil => rfl
  | cons declared list ih =>
    obtain ⟨hdeclared, hlist⟩ := List.forall_mem_cons.1 hlist
    obtain ⟨name, hname⟩ := Option.isSome_iff_exists.1 hdeclared
    rw [declaredNames_cons hname, List.map_cons, List.map_cons, List.map_cons, ih hlist, aliasOf?, hname]
    rfl

/-! ### The first declarator of the definition itself -/

/-- The declarator at the place declares the definition itself under the name, and none in front of it does so. -/
structure IsFirstPlain (list : List Declarator) (place : Nat) (name : Text) : Prop where
  plain : ∃ declared, list[place]? = some declared ∧ declared.name = some name ∧ declared.type = .unnamed
  first : ∀ earlier < place, ∀ declared, list[earlier]? = some declared → declared.type ≠ .unnamed

theorem isUnnamed_iff {type : CType} : type.isUnnamed = true ↔ type = .unnamed := by
  unfold CType.isUnnamed CType.unnamed
  split <;> simp_all

/-- The name of the first such declarator is taken out at its place. -/
theorem takePlainName_of_first {list : List Declarator} (hlist : ∀ declared ∈ list, declared.name.isSome = true)
    {place : Nat} {name : Text} (hplain : IsFirstPlain list place name) :
    takePlainName (declaredNames list) = (some name, (declaredNames list).eraseIdx place) := by
  induction list generalizing place with
  | nil =>
    obtain ⟨_, hplace, -⟩ := hplain.plain
    cases hplace
  | cons declared list ih =>
    obtain ⟨hdeclared, hlist⟩ := List.forall_mem_cons.1 hlist
    obtain ⟨found, hfound⟩ := Option.isSome_iff_exists.1 hdeclared
    rw [declaredNames_cons hfound, takePlainName]
    cases place with
    | zero =>
      obtain ⟨_, hplace, hname, htype⟩ := hplain.plain
      cases hplace
      cases hfound.symm.trans hname
      rw [if_pos (isUnnamed_iff.2 htype), List.eraseIdx_cons_zero]
    | succ place =>
      have hne : declared.type ≠ .unnamed := hplain.first 0 (Nat.succ_pos place) declared rfl
      have hothers : IsFirstPlain list place name :=
        ⟨hplain.plain, fun earlier hlt => hplain.first (earlier + 1) (Nat.succ_lt_succ hlt)⟩
      rw [if_neg (mt isUnnamed_iff.1 hne), ih hlist hothers, List.eraseIdx_cons_succ]

theorem takePlainName_of_none {list : List Declarator} (hlist : ∀ declared ∈ list, declared.name.isSome = true)
    (hnone : ∀ declared ∈ list, declared.type ≠ .unnamed) : takePlainName (declaredNames list) = (none, declaredNames list) := by
  induction list with
  | nil => rfl
  | cons declared list ih =>
    obtain ⟨hdeclared, hlist⟩ := List.forall_mem_cons.1 hlist
    obtain ⟨hne, hnone⟩ := List.forall_mem_cons.1 hnone
    obtain ⟨found, hfound⟩ := Option.isSome_iff_exists.1 hdeclared
    rw [declaredNames_cons hfound, takePlainName, if_neg (mt isUnnamed_iff.1 hne), ih hlist hnone]

/-! ### Statements -/

/-- The statement that defines the target under the name, with these aliases. -/
def defining (comment : Option Text) (name : Option Text) (aliases : List Alias) : Target → Typedef
  | .type _ => { aliases, record := none, enumeration := none }
  | .record found =>
    { aliases, record := some { found with name, comment := found.comment <|> comment }, enumeration := none }
  | .enumeration found =>
    { aliases, record := none, enumeration := some { found with name, comment := found.comment <|> comment } }

theorem ofDeclarators_withName {kind : DefinitionKind} {target : Target} (htarget : kind.IsBare target)
    (comment name : Option Text) (declared : List (Text × CType)) :
    ofDeclarators comment (target.withName name) declared =
      defining comment (nameDefinition name declared).1 ((nameDefinition name declared).2.map fun (found, type) =>
        aliasOf comment (.path (nameDefinition name declared).1.toList) found type) target := by
  cases target with
  | type written => cases kind <;> exact htarget.elim
  | record found => rfl
  | enumeration found => rfl

/-- The statement defines something of this kind in place, with this name and comment. -/
def Defines (kind : DefinitionKind) (name comment : Option Text) (statement : Typedef) : Prop :=
  match kind with
  | .record kind => statement.enumeration = none ∧
      ∃ found, statement.record = some found ∧ found.kind = kind ∧ found.name = name ∧ found.comment = comment
  | .enumeration => statement.record = none ∧
      ∃ found, statement.enumeration = some found ∧ found.name = name ∧ found.comment = comment

theorem defines_defining {kind : DefinitionKind} {target : Target} (htarget : kind.IsBare target)
    (comment name : Option Text) (aliases : List Alias) : (defining comment name aliases target).Defines kind name comment := by
  cases kind with
  | record kind =>
    cases target with
    | record found =>
      have hkind : found.kind = kind := congrArg Record.kind htarget
      have hcomment : found.comment = none := congrArg Record.comment htarget
      exact ⟨rfl, _, rfl, hkind, rfl, by rw [hcomment]; rfl⟩
    | _ => exact htarget.elim
  | enumeration =>
    cases target with
    | enumeration found => exact ⟨rfl, _, rfl, rfl, by rw [htarget.2]; rfl⟩
    | _ => exact htarget.elim

/-- The statement in which the definition without a name has one. -/
def withName (name : Text) (statement : Typedef) : Typedef where
  aliases := statement.aliases.map fun declared => { declared with type := declared.type.rebase (.path [name]) }
  record := statement.record.map (Record.withName (some name))
  enumeration := statement.enumeration.map fun found => { found with name := some name }

theorem rebase_unnamed (type : CType) : type.rebase .unnamed = type := by
  generalize hbase : CType.unnamed = base
  fun_induction type.rebase base with
  | case1 => exact hbase.symm
  | case8 => rfl
  | case2 _ _ ih | case3 _ _ ih | case4 _ _ ih | case5 _ _ ih | case6 _ _ _ ih | case7 _ _ _ ih => rw [ih hbase]

theorem withName_defining (comment name : Option Text) (found : Text) (declared : List (Text × CType)) (target : Target) :
    (defining comment name (declared.map fun (name, type) => aliasOf comment .unnamed name type) target).withName found =
      defining comment (some found) (declared.map fun (name, type) => aliasOf comment (.path [found]) name type) target := by
  have haliases : (declared.map fun (name, type) => aliasOf comment .unnamed name type).map
      (fun declared => { declared with type := declared.type.rebase (.path [found]) }) =
        declared.map fun (name, type) => aliasOf comment (.path [found]) name type := by
    rw [List.map_map]
    refine List.map_congr_left fun (name, type) _ => ?_
    simp only [Function.comp_apply, aliasOf, rebase_unnamed]
  cases target with
  | type written => simp only [withName, defining, haliases, Option.map_none]
  | record record => simp only [withName, defining, haliases, Option.map_none, Option.map_some, Record.withName]
  | enumeration enumeration => simp only [withName, defining, haliases, Option.map_none, Option.map_some]

end Typedef

open Typedef

/-- A definition without a name in a typedef is the one with the name of its first plain declarator. The statement
without the name is accepted exactly when the other one is, up to the same place. If the first declarator of the
definition itself has the name, then both define the same under this name and declare the same aliases, but for the one
at the place of this declarator. If there is no such declarator, then the definition has no name, and every declarator
is an alias. -/
theorem typedef_anonymous (layout : Layout) {front : Text} {comment : Option Text} (hfront : Introduces front comment)
    (kind : DefinitionKind) {name : Text} (hname : isPlainName name = true) (room : Nat) (inner rest : Text) :
    ((∃ anonymous, typedef room (front ++ kind.text layout none inner) = .ok anonymous rest) ↔
      ∃ named, typedef room (front ++ kind.text layout (some name) inner) = .ok named rest) ∧
    ∀ anonymous named, typedef room (front ++ kind.text layout none inner) = .ok anonymous rest →
      typedef room (front ++ kind.text layout (some name) inner) = .ok named rest →
      ∃ target declarators, kind.statement room inner = .ok (target, declarators) rest ∧
        named.Defines kind (some name) comment ∧
        named.aliases.map some = declarators.map (aliasOf? comment (.path [name])) ∧
        (∀ place, IsFirstPlain declarators place name →
          anonymous = { named with aliases := named.aliases.eraseIdx place }) ∧
        ((∀ declared ∈ declarators, declared.type ≠ .unnamed) →
          anonymous.Defines kind none comment ∧
          anonymous.aliases.map some = declarators.map (aliasOf? comment .unnamed) ∧
          named = anonymous.withName name) := by
  have hanonymous := typedef_text layout hfront room kind none nofun inner
  have hnamed := typedef_text layout hfront room kind (some name) (by rintro _ ⟨⟩; exact hname) inner
  rw [hanonymous, hnamed]
  refine ⟨?_, fun anonymous named hanonymous hnamed => ?_⟩
  · -- Both are what is read behind the brace, whatever it makes of the name.
    cases kind.statement room inner <;> simp [Outcome.map]
  obtain ⟨⟨target, list⟩, hstatement, rfl⟩ := Outcome.map_eq_ok.1 hanonymous
  rw [hstatement] at hnamed
  cases hnamed
  obtain ⟨found, mid, hbody, hlist⟩ := bind_eq_ok.1 hstatement
  obtain ⟨declared, _, hdeclared, hpair⟩ := bind_eq_ok.1 hlist
  cases hpair
  have htarget := DefinitionKind.isBare_body hbody
  have hnames := isSome_name_of_declarators hdeclared
  have hdefined : ofDeclarators comment (target.withName (some name)) (declaredNames list) =
      defining comment (some name) ((declaredNames list).map fun (declared, type) => aliasOf comment (.path [name]) declared type)
        target := ofDeclarators_withName htarget comment (some name) _
  dsimp only
  rw [hdefined, ofDeclarators_withName htarget comment none]
  refine ⟨target, list, hstatement, defines_defining htarget comment _ _, ?_, fun place hplain => ?_, fun hnone => ?_⟩
  · rw [← map_aliasOf comment _ hnames]
    cases target <;> rfl
  · have htaken : nameDefinition none (declaredNames list) = (some name, (declaredNames list).eraseIdx place) :=
      takePlainName_of_first hnames hplain
    rw [htaken]
    dsimp only
    rw [← List.eraseIdx_map]
    cases target <;> rfl
  · have htaken : nameDefinition none (declaredNames list) = (none, declaredNames list) :=
      takePlainName_of_none hnames hnone
    rw [htaken]
    refine ⟨defines_defining htarget comment _ _, ?_, (withName_defining comment none name _ target).symm⟩
    rw [← map_aliasOf comment _ hnames]
    cases target <;> rfl

theorem introduces_block : Introduces "/** doc */ ".toList (some "doc".toList) := by
  intro tail htail
  have hspaces : spaces0 ("/** doc */ ".toList ++ tail) = .ok [] ("/** doc */ ".toList ++ tail) := rfl
  have hcomment : opt comment ("/** doc */ ".toList ++ tail) = .ok (some "doc".toList) (' ' :: tail) := rfl
  have hgap : gapEnd (' ' :: tail) = tail := gapEnd_append_token isSpaces_one htail
  rw [leadingComment, bind_of_ok hspaces, bind_of_ok hcomment, bind_of_ok (skipGap_apply _), hgap]
  rfl

set_option maxRecDepth 20000 in
/-- An enumeration that its second declarator names, and a struct that is only pointed to. -/
theorem typedef_anonymous_pointers :
    Introduces "/** doc */ ".toList (some "doc".toList) ∧ isPlainName ['N'] = true ∧
    (∃ anonymous named, typedef nestingLimit "/** doc */ typedef enum \x7bA\x7d *P, N;".toList = .ok anonymous [] ∧
      typedef nestingLimit "/** doc */ typedef enum N \x7bA\x7d *P, N;".toList = .ok named [] ∧
      named.aliases.map Alias.name = [['P'], ['N']] ∧
      anonymous = { named with aliases := named.aliases.eraseIdx 1 }) ∧
    ∃ anonymous named, typedef nestingLimit "/** doc */ typedef struct \x7b\x7d *P;".toList = .ok anonymous [] ∧
      typedef nestingLimit "/** doc */ typedef struct N \x7b\x7d *P;".toList = .ok named [] ∧
      anonymous.Defines (.record .isStruct) none (some "doc".toList) ∧ named = anonymous.withName ['N'] := by
  have hname : isPlainName ['N'] = true := by decide
  have hsome : ∀ word ∈ some ['N'], isPlainName word = true := by
    rintro _ ⟨⟩
    exact hname
  have hnone : ∀ word ∈ (none : Option Text), isPlainName word = true := by simp
  have hread (kind : DefinitionKind) {inner : Text} {target : Target} {list : List Declarator}
      (hstatement : kind.statement nestingLimit inner = .ok (target, list) []) (name : Option Text)
      (hname : ∀ word ∈ name, isPlainName word = true) :
      typedef nestingLimit ("/** doc */ ".toList ++ kind.text Layout.spaced name inner) =
        .ok (ofDeclarators (some "doc".toList) (target.withName name) (declaredNames list)) [] := by
    rw [typedef_text Layout.spaced introduces_block nestingLimit kind name hname inner, hstatement]
    rfl
  refine ⟨introduces_block, hname, ?_, ?_⟩
  · have hbody : Enumeration.body "A\x7d *P, N;".toList =
        .ok [{ name := ['A'], value := some (.int 0), comment := none }] " *P, N;".toList := by cbv
    have hlist : declarators nestingLimit .unnamed " *P, N;".toList = .ok
        [{ name := some ['P'], type := .pointer .unnamed, bitfield := none, defaultValue := none },
         { name := some ['N'], type := .unnamed, bitfield := none, defaultValue := none }] [] := by cbv
    have hstatement := statement_of_ok .enumeration (map_of_ok hbody) hlist
    have hanonymous := hread .enumeration hstatement none hnone
    have hnamed := hread .enumeration hstatement (some ['N']) hsome
    obtain ⟨target, list, hfound, -, -, hplain, -⟩ := (typedef_anonymous Layout.spaced introduces_block .enumeration hname
      nestingLimit "A\x7d *P, N;".toList []).2 _ _ hanonymous hnamed
    rw [hstatement] at hfound
    cases hfound
    refine ⟨_, _, hanonymous, hnamed, rfl, hplain 1 ⟨⟨_, rfl, rfl, rfl⟩, ?_⟩⟩
    intro earlier hlt declared hdeclared
    cases Nat.lt_one_iff.1 hlt
    cases hdeclared
    simp [CType.unnamed]
  · have hbody : recordBody nestingLimit "\x7d *P;".toList = .ok [] " *P;".toList := by cbv
    have hlist : declarators nestingLimit .unnamed " *P;".toList = .ok
        [{ name := some ['P'], type := .pointer .unnamed, bitfield := none, defaultValue := none }] [] := by cbv
    have hstatement := statement_of_ok (.record .isStruct) (map_of_ok hbody) hlist
    have hanonymous := hread (.record .isStruct) hstatement none hnone
    have hnamed := hread (.record .isStruct) hstatement (some ['N']) hsome
    obtain ⟨target, list, hfound, -, -, -, hnone⟩ := (typedef_anonymous Layout.spaced introduces_block (.record .isStruct)
      hname nestingLimit "\x7d *P;".toList []).2 _ _ hanonymous hnamed
    rw [hstatement] at hfound
    cases hfound
    obtain ⟨hdefines, -, hwithName⟩ := hnone (by simp [CType.unnamed])
    exact ⟨_, _, hanonymous, hnamed, hdefines, hwithName⟩

end HeaderOutline
