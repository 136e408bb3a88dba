import HeaderOutline.Proofs.Document.Keys
/-!
# What a document shows

A document shows everything in a header but the structure of its types, of which it shows the text. So two
headers with the same document are the same, once each type is replaced by its text.
-/

namespace HeaderOutline

open Json (field texts text? ofList ofOption fieldUnlessEmpty)

/-! ### Headers with types as text -/

/-- The type as a mere text. -/
def CType.shown (type : CType) : CType := .value type.render

def TemplateParam.shown (param : TemplateParam) : TemplateParam := { param with type := param.type.map CType.shown }

def Param.shown (param : Param) : Param := { param with type := param.type.shown }

def Enumeration.shown (enumeration : Enumeration) : Enumeration :=
  { enumeration with type := enumeration.type.map CType.shown }

def FunctionDecl.shown (function : FunctionDecl) : FunctionDecl :=
  { function with
    returnType := function.returnType.map CType.shown
    templateParams := function.templateParams.map TemplateParam.shown
    params := function.params.map Param.shown }

def Variable.shown (declared : Variable) : Variable := { declared with type := declared.type.shown }

def Alias.shown (declared : Alias) : Alias :=
  { declared with type := declared.type.shown, templateParams := declared.templateParams.map TemplateParam.shown }

def Base.shown (base : Base) : Base := { base with type := base.type.shown }

/-- The record with types as text, given the records inside it. -/
def Record.shownWith (record : Record) (records : ByAccess Record) : Record :=
  { record with
    templateParams := record.templateParams.map TemplateParam.shown
    bases := record.bases.map Base.shown
    methods := record.methods.map FunctionDecl.shown
    members := record.members.map Variable.shown
    records := records
    enumerations := record.enumerations.map Enumeration.shown
    aliases := record.aliases.map Alias.shown }

mutual

def Record.shown : Record → Record
  | record@⟨_, _, _, _, _, _, _, _, records, _, _, _, _, _, _, _⟩ => record.shownWith (shownByAccess records)

def shownByAccess : ByAccess Record → ByAccess Record
  | ⟨publicRecords, protectedRecords, privateRecords⟩ =>
    ⟨shownRecords? publicRecords, shownRecords? protectedRecords, shownRecords? privateRecords⟩

def shownRecords? : Option (List Record) → Option (List Record)
  | none => none
  | some records => some (shownRecords records)

def shownRecords : List Record → List Record
  | [] => []
  | record :: records => record.shown :: shownRecords records

end

/-- The scope with types as text, given the namespaces inside it. -/
def Scope.shownWith (scope : Scope) (namespaces : List Namespace) : Scope :=
  { scope with
    namespaces := namespaces
    records := scope.records.map Record.shown
    functions := scope.functions.map FunctionDecl.shown
    vars := scope.vars.map Variable.shown
    enumerations := scope.enumerations.map Enumeration.shown
    aliases := scope.aliases.map Alias.shown }

mutual

def Scope.shown : Scope → Scope
  | scope@⟨namespaces, _, _, _, _, _, _, _, _, _, _, _⟩ => scope.shownWith (shownNamespaces namespaces)

def shownNamespaces : List Namespace → List Namespace
  | [] => []
  | inner :: namespaces => shownNamespace inner :: shownNamespaces namespaces

def shownNamespace : Namespace → Namespace
  | ⟨name, isInline, scope⟩ => ⟨name, isInline, scope.shown⟩

end

def Header.shown (header : Header) : Header := { header with scope := header.scope.shown }

theorem shownRecords_eq (records : List Record) : shownRecords records = records.map Record.shown := by
  induction records with
  | nil => rfl
  | cons record records ih => rw [shownRecords, ih, List.map_cons]

theorem shownByAccess_eq (records : ByAccess Record) : shownByAccess records = records.map Record.shown := by
  obtain ⟨_ | publicRecords, _ | protectedRecords, _ | privateRecords⟩ := records <;>
    simp [shownByAccess, shownRecords?, shownRecords_eq, ByAccess.map]

theorem Record.shown_eq (record : Record) : record.shown = record.shownWith (record.records.map Record.shown) := by
  rw [← shownByAccess_eq]
  cases record
  rw [Record.shown]

theorem shownNamespaces_eq (namespaces : List Namespace) : shownNamespaces namespaces = namespaces.map shownNamespace := by
  induction namespaces with
  | nil => rfl
  | cons inner namespaces ih => rw [shownNamespaces, ih, List.map_cons]

theorem Scope.shown_eq (scope : Scope) : scope.shown = scope.shownWith (scope.namespaces.map shownNamespace) := by
  rw [← shownNamespaces_eq]
  cases scope
  rw [Scope.shown]

theorem shownNamespace_eq (inner : Namespace) : shownNamespace inner = { inner with scope := inner.scope.shown } := by
  cases inner
  rw [shownNamespace]

/-! ### What JSON values tell -/

namespace Json

variable {α β : Type} {encode : α → Json} {view : α → β}

/-- From the value of an item, its view is known. -/
def Tells (encode : α → Json) (view : α → β) (a : α) : Prop := ∀ b, encode a = encode b → view a = view b

theorem Tells.list {as : List α} (has : ∀ a ∈ as, Tells encode view a) : Tells (ofList encode) (List.map view) as := by
  intro bs heq
  simp only [ofList, array.injEq] at heq
  induction as generalizing bs with
  | nil =>
    cases bs with
    | nil => rfl
    | cons b bs => cases heq
  | cons a as ih =>
    cases bs with
    | nil => cases heq
    | cons b bs =>
      obtain ⟨hhead, htail⟩ := List.cons.inj heq
      rw [List.map_cons, List.map_cons, has a List.mem_cons_self b hhead,
        ih (fun c hc => has c (List.mem_cons_of_mem a hc)) bs htail]

theorem Tells.option {a? : Option α} (hnull : ∀ a, encode a ≠ .null) (ha : ∀ a ∈ a?, Tells encode view a) :
    Tells (ofOption encode) (Option.map view) a? := by
  intro b? heq
  match a?, b? with
  | none, none => rfl
  | none, some b => exact absurd heq.symm (hnull b)
  | some a, none => exact absurd heq (hnull a)
  | some a, some b => exact congrArg some (ha a rfl b heq)

theorem tells_string : ∀ text, Tells .string (id : Text → Text) text := fun _ _ heq => Json.string.inj heq

theorem text?_inj {text other : Option Text} (heq : text? text = text? other) : text = other := by
  have hnull : ∀ text, Json.string text ≠ .null := nofun
  simpa using Tells.option hnull (fun text _ => tells_string text) other heq

theorem texts_inj {items others : List Text} (heq : texts items = texts others) : items = others := by
  simpa using Tells.list (fun text _ => tells_string text) others heq

theorem field_cons_inj {key : String} {value other : Json} {rest rest' : List (Text × Json)} :
    field key value :: rest = field key other :: rest' ↔ value = other ∧ rest = rest' := by
  simp [field]

/-- A field that may be left out, in front of fields with other keys. -/
theorem fieldUnlessEmpty_append_inj {key : String} {items others : List α} {rest rest' : List (Text × Json)}
    (hitems : ∀ a ∈ items, Tells encode view a) (hrest : key.toList ∉ rest.map Prod.fst)
    (hrest' : key.toList ∉ rest'.map Prod.fst)
    (heq : fieldUnlessEmpty key encode items ++ rest = fieldUnlessEmpty key encode others ++ rest') :
    items.map view = others.map view ∧ rest = rest' := by
  cases items with
  | nil =>
    cases others with
    | nil => exact ⟨rfl, heq⟩
    | cons b others =>
      have heq : rest = field key (ofList encode (b :: others)) :: rest' := heq
      rw [heq] at hrest
      exact absurd List.mem_cons_self hrest
  | cons a items =>
    cases others with
    | nil =>
      have heq : field key (ofList encode (a :: items)) :: rest = rest' := heq
      rw [← heq] at hrest'
      exact absurd List.mem_cons_self hrest'
    | cons b others =>
      obtain ⟨hhead, htail⟩ := List.cons.inj heq
      exact ⟨Tells.list hitems (b :: others) (Prod.mk.inj hhead).2, htail⟩

end Json

open Json (Tells tells_string text?_inj texts_inj field_cons_inj)

theorem ByAccess.lookup_entries {α : Type} (encode : α → Json) (lists : ByAccess α) (access : Access) :
    (lists.entries.map fun (access, items) => (access.word, ofList encode items)).lookup access.word =
      (lists.get? access).map (ofList encode) := by
  obtain ⟨_ | publicItems, _ | protectedItems, _ | privateItems⟩ := lists <;> cases access <;> rfl

theorem ByAccess.tells {α β : Type} {encode : α → Json} {view : α → β} {lists : ByAccess α}
    (hlists : ∀ a ∈ lists.all, Tells encode view a) : Tells (ByAccess.toJson encode) (ByAccess.map view) lists := by
  intro others heq
  have hlists : ∀ access, (lists.get? access).map (List.map view) = (others.get? access).map (List.map view) := by
    intro access
    have hlookup := lookup_entries encode lists access
    rw [Json.object.inj heq, lookup_entries] at hlookup
    cases hitems : lists.get? access with
    | none =>
      rw [hitems, Option.map_none, Option.map_eq_none_iff] at hlookup
      rw [hlookup]
    | some items =>
      rw [hitems, Option.map_some, Option.map_eq_some_iff] at hlookup
      obtain ⟨items', hitems', heq⟩ := hlookup
      have htells : Tells (ofList encode) (List.map view) items :=
        .list fun a ha => hlists a (ByAccess.mem_all.2 ⟨access, items, hitems, ha⟩)
      rw [hitems', Option.map_some, Option.map_some, htells items' heq.symm]
  rw [ByAccess.map, ByAccess.map, ByAccess.mk.injEq]
  exact ⟨hlists .isPublic, hlists .isProtected, hlists .isPrivate⟩

/-! ### What documents tell -/

theorem CType.tells (type : CType) : Tells CType.toJson CType.shown type :=
  fun _ heq => congrArg CType.value (Json.string.inj heq)

theorem CType.toJson_ne_null (type : CType) : type.toJson ≠ .null := nofun

theorem CType.tells_option (type? : Option CType) :
    Tells (ofOption CType.toJson) (Option.map CType.shown) type? :=
  .option CType.toJson_ne_null fun type _ => type.tells

theorem TemplateParam.tells (param : TemplateParam) : Tells TemplateParam.toJson TemplateParam.shown param := by
  intro other heq
  obtain ⟨name, type, defaultValue, isVariadic⟩ := param
  obtain ⟨name', type', defaultValue', isVariadic'⟩ := other
  cases type <;> cases type' <;> simp [TemplateParam.toJson, field] at heq
  · obtain ⟨hname, hdefault, rfl⟩ := heq
    rw [text?_inj hname, text?_inj hdefault]
  · obtain ⟨hname, htype, hdefault, rfl⟩ := heq
    simp only [shown, Option.map_some, CType.tells _ _ htype, text?_inj hname, text?_inj hdefault]

theorem Param.tells (param : Param) : Tells Param.toJson Param.shown param := by
  intro other heq
  simp only [Param.toJson, Json.object.injEq, field_cons_inj, Json.bool.injEq, and_true] at heq
  obtain ⟨hname, htype, hconst, hdefault⟩ := heq
  simp only [shown, text?_inj hname, CType.tells _ _ htype, hconst, text?_inj hdefault]

theorem EnumeratorValue.tells (value : EnumeratorValue) : Tells EnumeratorValue.toJson id value := by
  rintro other heq
  cases value <;> cases other <;> simp [EnumeratorValue.toJson] at heq
  all_goals rw [heq]

theorem EnumeratorValue.toJson_ne_null (value : EnumeratorValue) : value.toJson ≠ .null := by
  cases value <;> nofun

theorem Enumerator.tells (enumerator : Enumerator) : Tells Enumerator.toJson id enumerator := by
  rintro ⟨name', value', comment'⟩ heq
  obtain ⟨name, value, comment⟩ := enumerator
  simp only [Enumerator.toJson, Json.object.injEq, field_cons_inj, Json.string.injEq, and_true] at heq
  obtain ⟨rfl, hvalue, hcomment⟩ := heq
  have hvalue := Tells.option EnumeratorValue.toJson_ne_null (fun value _ => value.tells) _ hvalue
  rw [Option.map_id] at hvalue
  have hvalue : value = value' := hvalue
  rw [hvalue, text?_inj hcomment]

theorem Enumeration.tells (enumeration : Enumeration) : Tells Enumeration.toJson Enumeration.shown enumeration := by
  intro other heq
  simp only [Enumeration.toJson, Json.object.injEq, field_cons_inj, Json.bool.injEq, and_true] at heq
  obtain ⟨hname, hscoped, htype, henumerators, hforward, hinstances, hcomment⟩ := heq
  have henumerators := Tells.list (fun enumerator _ => Enumerator.tells enumerator) _ henumerators
  rw [List.map_id, List.map_id] at henumerators
  simp only [shown, text?_inj hname, hscoped, CType.tells_option _ _ htype, henumerators, hforward, texts_inj hinstances,
    text?_inj hcomment]

theorem words_inj {α : Type} {word : α → Text} (hword : Function.Injective word) {items others : List α}
    (heq : texts (items.map word) = texts (others.map word)) : items = others :=
  (List.map_inj_right fun _ _ heq => hword heq).1 (texts_inj heq)

theorem FunctionSpecifier.word_injective : Function.Injective FunctionSpecifier.word := by
  intro specifier other
  cases specifier <;> cases other <;> first | exact fun _ => rfl | exact fun heq => absurd heq (by decide)

theorem VariableModifier.word_injective : Function.Injective VariableModifier.word := by
  intro modifier other
  cases modifier <;> cases other <;> first | exact fun _ => rfl | exact fun heq => absurd heq (by decide)

theorem AliasKind.word_injective : Function.Injective AliasKind.word := by
  intro kind other
  cases kind <;> cases other <;> first | exact fun _ => rfl | exact fun heq => absurd heq (by decide)

theorem RecordKind.word_injective : Function.Injective RecordKind.word := by
  intro kind other
  cases kind <;> cases other <;> first | exact fun _ => rfl | exact fun heq => absurd heq (by decide)

theorem Access.word_injective : Function.Injective Access.word := by
  intro access other
  cases access <;> cases other <;> first | exact fun _ => rfl | exact fun heq => absurd heq (by decide)

theorem FunctionDecl.tells (function : FunctionDecl) : Tells FunctionDecl.toJson FunctionDecl.shown function := by
  intro other heq
  simp only [FunctionDecl.toJson, Json.object.injEq, field_cons_inj, Json.string.injEq, Json.bool.injEq, and_true] at heq
  obtain ⟨hname, hapi, hreturn, htemplate, hparams, hspecifiers, hconst, hnoexcept, hpure, hdeleted, hdefaulted,
    hvariadic, hbody, hcomment⟩ := heq
  have htemplate := Tells.list (fun param _ => TemplateParam.tells param) _ htemplate
  have hparams := Tells.list (fun param _ => Param.tells param) _ hparams
  simp only [shown, hname, text?_inj hapi, CType.tells_option _ _ hreturn, htemplate, hparams,
    words_inj FunctionSpecifier.word_injective hspecifiers, hconst, hnoexcept, hpure, hdeleted, hdefaulted, hvariadic,
    hbody, text?_inj hcomment]

theorem Variable.tells (declared : Variable) : Tells Variable.toJson Variable.shown declared := by
  intro other heq
  simp only [Variable.toJson, Json.object.injEq, field_cons_inj, Json.string.injEq, and_true] at heq
  obtain ⟨hname, htype, hdefault, hbitfield, hmodifiers, hcomment⟩ := heq
  simp only [shown, hname, CType.tells _ _ htype, text?_inj hdefault, text?_inj hbitfield,
    words_inj VariableModifier.word_injective hmodifiers, text?_inj hcomment]

theorem Alias.tells (declared : Alias) : Tells Alias.toJson Alias.shown declared := by
  intro other heq
  simp only [Alias.toJson, Json.object.injEq, field_cons_inj, Json.string.injEq, and_true] at heq
  obtain ⟨hname, htype, hkind, htemplate, hcomment⟩ := heq
  have htemplate := Tells.list (fun param _ => TemplateParam.tells param) _ htemplate
  simp only [shown, hname, CType.tells _ _ htype, AliasKind.word_injective hkind, htemplate, text?_inj hcomment]

theorem Include.tells (target : Include) : Tells Include.toJson id target := by
  rintro ⟨path', isSystem'⟩ heq
  obtain ⟨path, isSystem⟩ := target
  simp only [Include.toJson, Json.object.injEq, field_cons_inj, Json.string.injEq, Json.bool.injEq, and_true] at heq
  obtain ⟨rfl, rfl⟩ := heq
  rfl

theorem Define.tells (definition : Define) : Tells Define.toJson id definition := by
  rintro ⟨name', params', value'⟩ heq
  obtain ⟨name, params, value⟩ := definition
  simp only [Define.toJson, Json.object.injEq, field_cons_inj, Json.string.injEq, and_true] at heq
  obtain ⟨rfl, hparams, hvalue⟩ := heq
  have hnull : ∀ items, texts items ≠ .null := nofun
  have htells : Tells (ofOption texts) (Option.map id) params := .option hnull fun _ _ _ => texts_inj
  have hparams := htells params' hparams
  rw [Option.map_id] at hparams
  have hparams : params = params' := hparams
  rw [hparams, text?_inj hvalue]

theorem Base.tells (base : Base) : Tells Base.toJson Base.shown base := by
  intro other heq
  simp only [Base.toJson, Json.object.injEq, field_cons_inj, Json.string.injEq, Json.bool.injEq, and_true] at heq
  obtain ⟨htype, haccess, hvirtual⟩ := heq
  simp only [shown, CType.tells _ _ htype, Access.word_injective haccess, hvirtual]

theorem Record.tells (record : Record) : Tells Record.toJson Record.shown record := by
  induction record using Record.inductionOn with
  | step record ih =>
    intro other heq
    rw [Record.toJson_eq, Record.toJson_eq] at heq
    simp only [Record.describe, Json.object.injEq, field_cons_inj, Json.string.injEq, Json.bool.injEq, and_true] at heq
    obtain ⟨hname, hkind, hapi, htemplate, hspecialization, hbases, hmethods, hmembers, hrecords, henumerations, haliases,
      hfriends, hfinal, hforward, hinstances, hcomment⟩ := heq
    have htemplate := Tells.list (fun param _ => TemplateParam.tells param) _ htemplate
    have hbases := Tells.list (fun base _ => Base.tells base) _ hbases
    have hmethods := ByAccess.tells (fun method _ => FunctionDecl.tells method) _ hmethods
    have hmembers := ByAccess.tells (fun member _ => Variable.tells member) _ hmembers
    have hrecords := ByAccess.tells ih _ hrecords
    have henumerations := ByAccess.tells (fun enumeration _ => Enumeration.tells enumeration) _ henumerations
    have haliases := ByAccess.tells (fun declared _ => Alias.tells declared) _ haliases
    simp only [Record.shown_eq, Record.shownWith, text?_inj hname, RecordKind.word_injective hkind, text?_inj hapi,
      htemplate, text?_inj hspecialization, hbases, hmethods, hmembers, hrecords, henumerations, haliases,
      texts_inj hfriends, hfinal, hforward, texts_inj hinstances, text?_inj hcomment]

/-- The fields of a scope that may be left out. -/
def Scope.directiveFields (scope : Scope) : List (Text × Json) :=
  fieldUnlessEmpty "includes" Include.toJson scope.inclusions
    ++ (fieldUnlessEmpty "defines" Define.toJson scope.definitions
      ++ (fieldUnlessEmpty "pragmas" .string scope.pragmas ++ fieldUnlessEmpty "conditionals" .string scope.conditionals))

theorem Scope.directiveFields_inj {scope other : Scope} (heq : scope.directiveFields = other.directiveFields) :
    scope.inclusions = other.inclusions ∧ scope.definitions = other.definitions ∧ scope.pragmas = other.pragmas ∧
      scope.conditionals = other.conditionals := by
  have hkey : ∀ {key : String} {keys : List Text} {fields : List (Text × Json)},
      (fields.map Prod.fst).Sublist keys → key.toList ∉ keys → key.toList ∉ fields.map Prod.fst :=
    fun hkeys hkey hmem => hkey (hkeys.subset hmem)
  have hconditionals (scope : Scope) :
      ((fieldUnlessEmpty "conditionals" .string scope.conditionals).map Prod.fst).Sublist ["conditionals".toList] :=
    Json.keys_fieldUnlessEmpty ..
  have hpragmas (scope : Scope) : ((fieldUnlessEmpty "pragmas" .string scope.pragmas
      ++ fieldUnlessEmpty "conditionals" .string scope.conditionals).map Prod.fst).Sublist
        ["pragmas".toList, "conditionals".toList] := by
    rw [List.map_append]
    exact (Json.keys_fieldUnlessEmpty ..).append (hconditionals scope)
  have hdefinitions (scope : Scope) : ((fieldUnlessEmpty "defines" Define.toJson scope.definitions
      ++ (fieldUnlessEmpty "pragmas" .string scope.pragmas
        ++ fieldUnlessEmpty "conditionals" .string scope.conditionals)).map Prod.fst).Sublist
        ["defines".toList, "pragmas".toList, "conditionals".toList] := by
    rw [List.map_append]
    exact (Json.keys_fieldUnlessEmpty ..).append (hpragmas scope)
  obtain ⟨hinclude, heq⟩ := Json.fieldUnlessEmpty_append_inj (fun target _ => Include.tells target)
    (hkey (hdefinitions scope) (by decide)) (hkey (hdefinitions other) (by decide)) heq
  obtain ⟨hdefine, heq⟩ := Json.fieldUnlessEmpty_append_inj (fun definition _ => Define.tells definition)
    (hkey (hpragmas scope) (by decide)) (hkey (hpragmas other) (by decide)) heq
  obtain ⟨hpragma, heq⟩ := Json.fieldUnlessEmpty_append_inj (fun text _ => tells_string text)
    (hkey (hconditionals scope) (by decide)) (hkey (hconditionals other) (by decide)) heq
  have heq : fieldUnlessEmpty "conditionals" .string scope.conditionals ++ [] =
      fieldUnlessEmpty "conditionals" .string other.conditionals ++ [] := congrArg (· ++ []) heq
  obtain ⟨hconditional, -⟩ := Json.fieldUnlessEmpty_append_inj (fun text _ => tells_string text)
    List.not_mem_nil List.not_mem_nil heq
  simp only [List.map_id] at hinclude hdefine hpragma hconditional
  exact ⟨hinclude, hdefine, hpragma, hconditional⟩

theorem Scope.fields_eq (scope : Scope) (namespaces : List Json) : scope.fields namespaces =
    [field "namespaces" (.array namespaces),
     field "classes" (ofList Record.toJson scope.records),
     field "functions" (ofList FunctionDecl.toJson scope.functions),
     field "variables" (ofList Variable.toJson scope.vars),
     field "enums" (ofList Enumeration.toJson scope.enumerations),
     field "typedefs" (ofList Alias.toJson scope.aliases),
     field "using" (texts scope.usings),
     field "comments" (texts scope.comments)] ++ scope.directiveFields := by
  simp only [fields, directiveFields, List.append_assoc]

theorem shownNamespace_of_eq {inner : Namespace}
    (hscope : ∀ {other : Scope}, inner.scope.toFields = other.toFields → inner.scope.shown = other.shown) :
    Tells namespaceJson shownNamespace inner := by
  intro other heq
  rw [namespaceJson_eq, namespaceJson_eq] at heq
  simp only [List.cons_append, List.nil_append, Json.object.injEq, field_cons_inj, Json.bool.injEq] at heq
  obtain ⟨hname, hinline, hfields⟩ := heq
  rw [shownNamespace_eq, shownNamespace_eq, text?_inj hname, hinline, hscope hfields]

theorem Scope.tells (scope : Scope) {other : Scope} (heq : scope.toFields = other.toFields) : scope.shown = other.shown := by
  induction scope using Scope.inductionOn generalizing other with
  | step scope ih =>
    rw [Scope.toFields_eq, Scope.toFields_eq, Scope.fields_eq, Scope.fields_eq] at heq
    simp only [List.cons_append, List.nil_append, field_cons_inj] at heq
    obtain ⟨hnamespaces, hrecords, hfunctions, hvars, henumerations, haliases, husings, hcomments, hdirectives⟩ := heq
    have hnamespaces := Tells.list (fun inner hinner => shownNamespace_of_eq (ih inner hinner)) _
      hnamespaces
    have hrecords := Tells.list (fun record _ => Record.tells record) _ hrecords
    have hfunctions := Tells.list (fun function _ => FunctionDecl.tells function) _ hfunctions
    have hvars := Tells.list (fun declared _ => Variable.tells declared) _ hvars
    have henumerations := Tells.list (fun enumeration _ => Enumeration.tells enumeration) _ henumerations
    have haliases := Tells.list (fun declared _ => Alias.tells declared) _ haliases
    obtain ⟨hinclude, hdefine, hpragma, hconditional⟩ := Scope.directiveFields_inj hdirectives
    simp only [Scope.shown_eq, Scope.shownWith, hnamespaces, hrecords, hfunctions, hvars, henumerations, haliases,
      texts_inj husings, texts_inj hcomments, hinclude, hdefine, hpragma, hconditional]

/-- The document tells the path, and the header with its types as text. -/
theorem Header.eq_of_document_eq {header other : Header} {path path' : Text}
    (heq : header.document path = other.document path') : path = path' ∧ header.shown = other.shown := by
  simp only [Header.document, Header.toFields, List.cons_append, List.nil_append, Json.object.injEq, field_cons_inj,
    Json.string.injEq] at heq
  obtain ⟨hpath, hinclude, hdefine, hpragma, hconditional, hscope⟩ := heq
  have hinclude := Tells.list (fun target _ => Include.tells target) _ hinclude
  have hdefine := Tells.list (fun definition _ => Define.tells definition) _ hdefine
  rw [List.map_id, List.map_id] at hinclude hdefine
  refine ⟨hpath, ?_⟩
  simp only [Header.shown, hinclude, hdefine, texts_inj hpragma, texts_inj hconditional, Scope.tells _ hscope]

end HeaderOutline
