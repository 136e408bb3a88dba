import HeaderOutline.Document
import HeaderOutline.Proofs.Json.Reader
/-!
# Keys of documents

No object of a document has a key twice. The one place where that could happen is the outermost object, which
holds the directives of the header and those of its scope: a header keeps them apart from its scope.
-/

namespace HeaderOutline

open Json (DistinctKeys field texts text? ofList ofOption fieldUnlessEmpty)

/-! ### Induction over records and scopes -/

/-- All items, by access. -/
def ByAccess.all {α : Type} (lists : ByAccess α) : List α := lists.entries.flatMap Prod.snd

theorem ByAccess.mem_all {α : Type} {lists : ByAccess α} {a : α} :
    a ∈ lists.all ↔ ∃ access items, lists.get? access = some items ∧ a ∈ items := by
  simp only [all, entries, List.mem_flatMap, List.mem_filterMap, Option.map_eq_some_iff]
  constructor
  · rintro ⟨_, ⟨access, -, items, hitems, rfl⟩, ha⟩
    exact ⟨access, items, hitems, ha⟩
  · rintro ⟨access, items, hitems, ha⟩
    exact ⟨_, ⟨access, by cases access <;> simp, items, hitems, rfl⟩, ha⟩

@[elab_as_elim]
theorem Record.inductionOn {motive : Record → Prop} (record : Record)
    (step : ∀ record : Record, (∀ inner ∈ record.records.all, motive inner) → motive record) : motive record :=
  @Record.rec motive (fun lists => ∀ inner ∈ lists.all, motive inner)
    (fun list => ∀ items, list = some items → ∀ inner ∈ items, motive inner) (fun items => ∀ inner ∈ items, motive inner)
    (fun _ _ _ _ _ _ _ _ _ _ _ _ _ _ _ _ hrecords => step _ hrecords)
    (fun _ _ _ hpublic hprotected hprivate inner hinner => by
      obtain ⟨access, items, hitems, hinner⟩ := ByAccess.mem_all.1 hinner
      cases access with
      | isPublic => exact hpublic items hitems inner hinner
      | isProtected => exact hprotected items hitems inner hinner
      | isPrivate => exact hprivate items hitems inner hinner)
    nofun (fun items hitems _ heq => Option.some.inj heq ▸ hitems) nofun
    (fun _ _ hrecord hrecords => List.forall_mem_cons.2 ⟨hrecord, hrecords⟩) record

@[elab_as_elim]
theorem Scope.inductionOn {motive : Scope → Prop} (scope : Scope)
    (step : ∀ scope : Scope, (∀ inner ∈ scope.namespaces, motive inner.scope) → motive scope) : motive scope :=
  @Scope.rec motive (fun namespaces => ∀ inner ∈ namespaces, motive inner.scope) (fun inner => motive inner.scope)
    (fun _ _ _ _ _ _ _ _ _ _ _ _ hnamespaces => step _ hnamespaces) nofun
    (fun _ _ hinner hnamespaces => List.forall_mem_cons.2 ⟨hinner, hnamespaces⟩) (fun _ _ _ hscope => hscope) scope

/-! ### Documents by their parts -/

theorem recordList_eq (records : List Record) : recordList records = records.map Record.toJson := by
  induction records with
  | nil => rfl
  | cons record records ih => rw [recordList, ih, List.map_cons]

theorem innerRecords_eq (records : ByAccess Record) : innerRecords records = records.toJson Record.toJson := by
  obtain ⟨publicRecords, protectedRecords, privateRecords⟩ := records
  cases publicRecords <;> cases protectedRecords <;> cases privateRecords <;>
    simp [innerRecords, recordsUnder, recordList_eq, ByAccess.toJson, ByAccess.entries, ByAccess.get?, ofList]

theorem Record.toJson_eq (record : Record) : record.toJson = record.describe (record.records.toJson Record.toJson) := by
  rw [← innerRecords_eq]
  cases record
  rw [Record.toJson]

theorem namespaceList_eq (namespaces : List Namespace) : namespaceList namespaces = namespaces.map namespaceJson := by
  induction namespaces with
  | nil => rfl
  | cons inner namespaces ih => rw [namespaceList, ih, List.map_cons]

theorem Scope.toFields_eq (scope : Scope) : scope.toFields = scope.fields (scope.namespaces.map namespaceJson) := by
  rw [← namespaceList_eq]
  cases scope
  rw [Scope.toFields]

theorem namespaceJson_eq (inner : Namespace) : namespaceJson inner =
    .object ([field "name" (text? inner.name), field "inline" (.bool inner.isInline)] ++ inner.scope.toFields) := by
  cases inner
  rw [namespaceJson]

/-! ### Parts without a key twice -/

namespace Json

variable {α : Type}

theorem distinctKeys_object {fields : List (Text × Json)} :
    DistinctKeys (.object fields) ↔ (fields.map Prod.fst).Nodup ∧ ∀ field ∈ fields, DistinctKeys field.2 := by
  rw [DistinctKeys, distinctKeysFields_iff]

@[simp] theorem distinctKeys_bool (value : Bool) : DistinctKeys (.bool value) := trivial

@[simp] theorem distinctKeys_string (text : Text) : DistinctKeys (.string text) := trivial

@[simp] theorem distinctKeys_array {items : List Json} : DistinctKeys (.array items) ↔ ∀ item ∈ items, DistinctKeys item := by
  rw [DistinctKeys, distinctKeysItems_iff]

@[simp] theorem distinctKeys_ofList {encode : α → Json} {items : List α} :
    DistinctKeys (ofList encode items) ↔ ∀ a ∈ items, DistinctKeys (encode a) := by
  simp [ofList]

@[simp] theorem distinctKeys_ofOption {encode : α → Json} {a? : Option α} :
    DistinctKeys (ofOption encode a?) ↔ ∀ a ∈ a?, DistinctKeys (encode a) := by
  cases a? with
  | none => exact ⟨nofun, fun _ => trivial⟩
  | some a => simp [ofOption]

@[simp] theorem distinctKeys_text? (text : Option Text) : DistinctKeys (text? text) := by simp [text?]

@[simp] theorem distinctKeys_texts (items : List Text) : DistinctKeys (texts items) := by simp [texts]

@[simp] theorem field_snd (key : String) (value : Json) : (field key value).2 = value := rfl

theorem distinctKeys_of_mem_fieldUnlessEmpty {key : String} {encode : α → Json} {items : List α}
    (hitems : ∀ a ∈ items, DistinctKeys (encode a)) : ∀ field ∈ fieldUnlessEmpty key encode items, DistinctKeys field.2 := by
  unfold fieldUnlessEmpty
  split
  · nofun
  · simpa using hitems

theorem keys_fieldUnlessEmpty (key : String) (encode : α → Json) (items : List α) :
    ((fieldUnlessEmpty key encode items).map Prod.fst).Sublist [key.toList] := by
  unfold fieldUnlessEmpty
  split
  · exact List.nil_sublist _
  · exact .refl _

end Json

open Json

@[simp] theorem CType.distinctKeys (type : CType) : type.toJson.DistinctKeys := trivial

@[simp] theorem TemplateParam.distinctKeys (param : TemplateParam) : param.toJson.DistinctKeys := by
  obtain ⟨name, type, defaultValue, isVariadic⟩ := param
  cases type with
  | none => exact distinctKeys_object.2 ⟨of_decide_eq_true rfl, by simp⟩
  | some type => exact distinctKeys_object.2 ⟨of_decide_eq_true rfl, by simp⟩

@[simp] theorem Param.distinctKeys (param : Param) : param.toJson.DistinctKeys :=
  distinctKeys_object.2 ⟨of_decide_eq_true rfl, by simp⟩

@[simp] theorem EnumeratorValue.distinctKeys (value : EnumeratorValue) : value.toJson.DistinctKeys := by
  cases value <;> trivial

@[simp] theorem Enumerator.distinctKeys (enumerator : Enumerator) : enumerator.toJson.DistinctKeys :=
  distinctKeys_object.2 ⟨of_decide_eq_true rfl, by simp⟩

@[simp] theorem Enumeration.distinctKeys (enumeration : Enumeration) : enumeration.toJson.DistinctKeys :=
  distinctKeys_object.2 ⟨of_decide_eq_true rfl, by simp⟩

@[simp] theorem FunctionDecl.distinctKeys (function : FunctionDecl) : function.toJson.DistinctKeys :=
  distinctKeys_object.2 ⟨of_decide_eq_true rfl, by simp⟩

@[simp] theorem Variable.distinctKeys (declared : Variable) : declared.toJson.DistinctKeys :=
  distinctKeys_object.2 ⟨of_decide_eq_true rfl, by simp⟩

@[simp] theorem Alias.distinctKeys (declared : Alias) : declared.toJson.DistinctKeys :=
  distinctKeys_object.2 ⟨of_decide_eq_true rfl, by simp⟩

@[simp] theorem Include.distinctKeys (target : Include) : target.toJson.DistinctKeys :=
  distinctKeys_object.2 ⟨of_decide_eq_true rfl, by simp⟩

@[simp] theorem Define.distinctKeys (definition : Define) : definition.toJson.DistinctKeys :=
  distinctKeys_object.2 ⟨of_decide_eq_true rfl, by simp⟩

@[simp] theorem Base.distinctKeys (base : Base) : base.toJson.DistinctKeys :=
  distinctKeys_object.2 ⟨of_decide_eq_true rfl, by simp⟩

theorem ByAccess.distinctKeys_toJson {α : Type} {encode : α → Json} {lists : ByAccess α}
    (hlists : ∀ a ∈ lists.all, (encode a).DistinctKeys) : (lists.toJson encode).DistinctKeys := by
  refine distinctKeys_object.2 ⟨?_, ?_⟩
  · obtain ⟨_ | publicItems, _ | protectedItems, _ | privateItems⟩ := lists <;> exact of_decide_eq_true rfl
  · simp only [List.forall_mem_map, distinctKeys_ofList]
    exact fun entry hentry a ha => hlists a (List.mem_flatMap.2 ⟨entry, hentry, ha⟩)

@[simp] theorem ByAccess.distinctKeys_of_forall {α : Type} {encode : α → Json} (hencode : ∀ a, (encode a).DistinctKeys)
    (lists : ByAccess α) : (lists.toJson encode).DistinctKeys :=
  lists.distinctKeys_toJson fun a _ => hencode a

@[simp] theorem Record.distinctKeys (record : Record) : record.toJson.DistinctKeys := by
  induction record using Record.inductionOn with
  | step record ih =>
    rw [Record.toJson_eq]
    refine distinctKeys_object.2 ⟨of_decide_eq_true rfl, ?_⟩
    have hrecords := ByAccess.distinctKeys_toJson ih
    simp [hrecords]

/-! ### Scopes and headers -/

/-- The keys of a scope, with those that may be left out. -/
def Scope.keys : List Text :=
  ["namespaces", "classes", "functions", "variables", "enums", "typedefs", "using", "comments", "includes", "defines",
    "pragmas", "conditionals"].map String.toList

theorem Scope.keys_fields (scope : Scope) (namespaces : List Json) :
    ((scope.fields namespaces).map Prod.fst).Sublist Scope.keys := by
  simp only [Scope.fields, List.map_append]
  exact ((((List.Sublist.refl _).append (keys_fieldUnlessEmpty ..)).append (keys_fieldUnlessEmpty ..)).append
    (keys_fieldUnlessEmpty ..)).append (keys_fieldUnlessEmpty ..)

theorem Scope.distinctKeys_of_mem_fields {scope : Scope} {namespaces : List Json}
    (hnamespaces : ∀ inner ∈ namespaces, inner.DistinctKeys) : ∀ field ∈ scope.fields namespaces, field.2.DistinctKeys := by
  simp only [Scope.fields, List.forall_mem_append]
  refine ⟨⟨⟨⟨?_, distinctKeys_of_mem_fieldUnlessEmpty fun _ _ => Include.distinctKeys _⟩,
    distinctKeys_of_mem_fieldUnlessEmpty fun _ _ => Define.distinctKeys _⟩,
    distinctKeys_of_mem_fieldUnlessEmpty fun _ _ => trivial⟩, distinctKeys_of_mem_fieldUnlessEmpty fun _ _ => trivial⟩
  simpa using hnamespaces

theorem namespaceJson_distinctKeys {inner : Namespace} (hscope : ∀ field ∈ inner.scope.toFields, field.2.DistinctKeys) :
    (namespaceJson inner).DistinctKeys := by
  rw [namespaceJson_eq]
  refine distinctKeys_object.2 ⟨?_, ?_⟩
  · have hkeys : (["name".toList, "inline".toList] ++ Scope.keys).Nodup := by decide
    rw [Scope.toFields_eq, List.map_append]
    exact hkeys.sublist ((List.Sublist.refl _).append (inner.scope.keys_fields _))
  · exact List.forall_mem_append.2 ⟨by simp, hscope⟩

theorem Scope.distinctKeys_of_mem_toFields (scope : Scope) : ∀ field ∈ scope.toFields, field.2.DistinctKeys := by
  induction scope using Scope.inductionOn with
  | step scope ih =>
    rw [Scope.toFields_eq]
    refine Scope.distinctKeys_of_mem_fields (List.forall_mem_map.2 fun inner hinner => ?_)
    exact namespaceJson_distinctKeys (ih inner hinner)

/-- The scope lists no directive of its own. -/
structure Scope.WithoutDirectives (scope : Scope) : Prop where
  inclusions : scope.inclusions = []
  definitions : scope.definitions = []
  pragmas : scope.pragmas = []
  conditionals : scope.conditionals = []

theorem Header.ofScope_withoutDirectives (scope : Scope) : (Header.ofScope scope).scope.WithoutDirectives :=
  ⟨rfl, rfl, rfl, rfl⟩

theorem Header.document_distinctKeys {header : Header} (hscope : header.scope.WithoutDirectives) (path : Text) :
    (header.document path).DistinctKeys := by
  refine distinctKeys_object.2 ⟨?_, ?_⟩
  · rw [Header.toFields, Scope.toFields_eq, Scope.fields, hscope.inclusions, hscope.definitions, hscope.pragmas,
      hscope.conditionals]
    exact of_decide_eq_true rfl
  · rw [Header.toFields]
    simp only [List.forall_mem_cons, List.forall_mem_append]
    exact ⟨trivial, by simp, header.scope.distinctKeys_of_mem_toFields⟩

end HeaderOutline
