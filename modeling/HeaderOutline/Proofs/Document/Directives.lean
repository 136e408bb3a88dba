import HeaderOutline.Proofs.Assembly
import HeaderOutline.Proofs.Document
/-!
# Directives in documents

The outermost object of a document and the object of every namespace list the directives that stand directly in the
header or in the namespace, those in blocks with a language linkage among them. A directive in a namespace is listed
there and nowhere else.
-/

namespace HeaderOutline

open HeaderOutline.Parser
open Json (field ofList fieldUnlessEmpty)
open Scope (ReadAs Ends Collects)
open Scope.Reading (texts leaves allLeaves)

/-! ### Directives among the items -/

namespace Directive

def inclusion? : Directive → Option Include
  | .includes target => some target
  | _ => none

def definition? : Directive → Option Define
  | .defines definition => some definition
  | _ => none

def pragma? : Directive → Option Text
  | .pragma text => some text
  | _ => none

def conditional? : Directive → Option Text
  | .conditional text => some text
  | _ => none

end Directive

namespace ScopeItem

def directive? : ScopeItem → Option Directive
  | .directive found => some found
  | _ => none

/-- The directives among the items, in their order. -/
def directives (items : List ScopeItem) : List Directive := items.filterMap directive?

end ScopeItem

open ScopeItem (directives)

namespace Scope

/-- The scope lists these directives, each in the list of its kind. -/
structure HoldsDirectives (contents : Scope) (own : List Directive) : Prop where
  inclusions : contents.inclusions = own.filterMap Directive.inclusion?
  definitions : contents.definitions = own.filterMap Directive.definition?
  pragmas : contents.pragmas = own.filterMap Directive.pragma?
  conditionals : contents.conditionals = own.filterMap Directive.conditional?

/-- Among items that are no blocks, only directives add to a list that takes directives alone. -/
theorem flatMap_added {α : Type} {added : ScopeItem → List α} {kind? : Directive → Option α} {items : List ScopeItem}
    (hitems : ∀ item ∈ items, ∀ contents, item ≠ .linkage contents)
    (hadded : ∀ item, (∀ contents, item ≠ .linkage contents) → added item = (item.directive?.bind kind?).toList) :
    items.flatMap added = (directives items).filterMap kind? := by
  induction items with
  | nil => rfl
  | cons item items ih =>
    obtain ⟨hitem, hitems⟩ := List.forall_mem_cons.1 hitems
    rw [List.flatMap_cons, ih hitems, hadded item hitem, directives, directives, List.filterMap_cons]
    cases item.directive? with
    | none => rfl
    | some directive =>
      dsimp only [Option.bind_some]
      rw [List.filterMap_cons]
      cases kind? directive <;> rfl

theorem added_of_ne_linkage {item : ScopeItem} (hitem : ∀ contents, item ≠ .linkage contents) :
    Added.inclusions item = (item.directive?.bind Directive.inclusion?).toList ∧
    Added.definitions item = (item.directive?.bind Directive.definition?).toList ∧
    Added.pragmas item = (item.directive?.bind Directive.pragma?).toList ∧
    Added.conditionals item = (item.directive?.bind Directive.conditional?).toList := by
  cases item with
  | directive found => cases found <;> exact ⟨rfl, rfl, rfl, rfl⟩
  | linkage contents => exact absurd rfl (hitem contents)
  | _ => exact ⟨rfl, rfl, rfl, rfl⟩

theorem Collects.holdsDirectives {contents : Scope} {items : List ScopeItem} (hcollects : contents.Collects items)
    (hitems : ∀ item ∈ items, ∀ contents, item ≠ .linkage contents) : contents.HoldsDirectives (directives items) where
  inclusions := hcollects.inclusions.trans (flatMap_added hitems fun _ hitem => (added_of_ne_linkage hitem).1)
  definitions := hcollects.definitions.trans (flatMap_added hitems fun _ hitem => (added_of_ne_linkage hitem).2.1)
  pragmas := hcollects.pragmas.trans (flatMap_added hitems fun _ hitem => (added_of_ne_linkage hitem).2.2.1)
  conditionals := hcollects.conditionals.trans (flatMap_added hitems fun _ hitem => (added_of_ne_linkage hitem).2.2.2)

variable {isBlock : Bool} {room : Nat} {readings : List Reading} {rest : Text}

theorem ReadAs.ne_linkage (hreadings : ReadAs isBlock room readings rest) :
    ∀ item ∈ allLeaves readings, ∀ contents, item ≠ .linkage contents := by
  induction hreadings with
  | nil => exact List.forall_mem_nil _
  | item _ _ hitem _ _ ih => exact List.forall_mem_cons.2 ⟨hitem, ih⟩
  | block _ _ _ _ _ _ _ _ _ ihbody ih => exact List.forall_mem_append.2 ⟨ihbody, ih⟩

/-- Each item was read somewhere in the text. -/
theorem ReadAs.exists_scopeItem (hreadings : ReadAs isBlock room readings rest) {item : ScopeItem}
    (hitem : item ∈ allLeaves readings) : ∃ inner ≤ room, ∃ place behind, place <:+ texts readings ++ rest ∧
      scopeItem inner place = .ok item behind := by
  induction hreadings with
  | nil => cases hitem
  | @item isBlock room space text rest read readings _ _ _ hread _ ih =>
    rw [allLeaves, leaves, List.singleton_append, List.mem_cons] at hitem
    rw [texts, Reading.text, List.append_assoc, List.append_assoc]
    obtain rfl | hitem := hitem
    · exact ⟨room, le_rfl, _, _, List.suffix_refl _, hread⟩
    · obtain ⟨inner, hinner, place, behind, hplace, hread⟩ := ih hitem
      exact ⟨inner, hinner, place, behind, (hplace.trans (List.suffix_append _ _)).trans (List.suffix_append _ _), hread⟩
  | @block isBlock room space opening closing rest contents body readings _ _ _ _ _ _ _ _ _ ihbody ih =>
    rw [allLeaves, leaves, List.mem_append] at hitem
    simp only [texts, Reading.text, List.append_assoc]
    obtain hitem | hitem := hitem
    · obtain ⟨inner, hinner, place, behind, hplace, hread⟩ := ihbody hitem
      refine ⟨inner, hinner.trans (Nat.le_succ room), place, behind, ?_, hread⟩
      exact (hplace.trans (List.suffix_append opening _)).trans (List.suffix_append space _)
    · obtain ⟨inner, hinner, place, behind, hplace, hread⟩ := ih hitem
      refine ⟨inner, hinner, place, behind, ?_, hread⟩
      exact (((hplace.trans (List.suffix_append closing _)).trans (List.suffix_append (texts body) _)).trans
        (List.suffix_append opening _)).trans (List.suffix_append space _)

end Scope

/-! ### Namespaces at any depth -/

namespace Namespace

/-- The namespace is one of the scope, or stands in one of the scope. -/
inductive Within : Namespace → Scope → Prop where
  | here {inner : Namespace} {contents : Scope} (hinner : inner ∈ contents.namespaces) : Within inner contents
  | inside {inner outer : Namespace} {contents : Scope} (houter : outer ∈ contents.namespaces)
      (hinner : Within inner outer.scope) : Within inner contents

/-- Where the text defines the namespace, and the directives that stand directly in it. A list of names opens one level
for each name, and only the last of them has the body for its contents. -/
inductive DefinedIn : (source : Text) → (inner : Namespace) → (own : List Directive) → Prop where
  | body (before : Text) {head ending rest behind : Text} {room : Nat} {names : List Text} {isInline : Bool} {inner : Namespace}
      {readings : List Scope.Reading}
      (hread : namespaceBlock (room + 1) (head ++ '\x7b' :: (texts readings ++ (ending ++ rest))) =
        .ok { nest inner.scope names with isInline } behind)
      (hname : inner.name = names.getLast?)
      (hreadings : ReadAs true room readings (ending ++ rest)) (hends : Ends true ending rest)
      (hcollects : inner.scope.Collects (allLeaves readings)) :
      DefinedIn (before ++ (head ++ '\x7b' :: (texts readings ++ (ending ++ rest)))) inner (directives (allLeaves readings))
  | level {source : Text} {inner next : Namespace} (hscope : inner.scope = { namespaces := [next] }) :
      DefinedIn source inner []

theorem DefinedIn.of_suffix {source text : Text} {inner : Namespace} {own : List Directive}
    (hdefined : DefinedIn text inner own) (hsuffix : text <:+ source) : DefinedIn source inner own := by
  obtain ⟨front, rfl⟩ := hsuffix
  cases hdefined with
  | body before hread hname hreadings hends hcollects =>
    rw [← List.append_assoc]
    exact .body (front ++ before) hread hname hreadings hends hcollects
  | level hscope => exact .level hscope

theorem DefinedIn.holdsDirectives {source : Text} {inner : Namespace} {own : List Directive}
    (hdefined : DefinedIn source inner own) : inner.scope.HoldsDirectives own := by
  cases hdefined with
  | body _ _ _ hreadings _ hcollects => exact hcollects.holdsDirectives hreadings.ne_linkage
  | level hscope =>
    rw [hscope]
    exact ⟨rfl, rfl, rfl, rfl⟩

theorem Within.of_namespaces_eq {inner : Namespace} {contents other : Scope} (hwithin : inner.Within contents)
    (heq : contents.namespaces = other.namespaces) : inner.Within other := by
  cases hwithin with
  | here hinner => exact .here (heq ▸ hinner)
  | inside houter hinner => exact .inside (heq ▸ houter) hinner

/-- A namespace in those that a list of names opens is one of these levels, has the body for its contents, or stands in
the body. -/
theorem Within.of_nest {inner outer : Namespace} {contents : Scope} {names : List Text} {isInline : Bool}
    (houter : outer = { nest contents names with isInline }) (hinner : inner = outer ∨ inner.Within outer.scope) :
    (∃ next, inner.scope = { namespaces := [next] }) ∨ (inner.scope = contents ∧ inner.name = names.getLast?) ∨
      inner.Within contents := by
  induction names generalizing outer isInline with
  | nil =>
    subst houter
    obtain rfl | hinner := hinner
    · exact .inr (.inl ⟨rfl, rfl⟩)
    · exact .inr (.inr hinner)
  | cons name names ih =>
    subst houter
    cases names with
    | nil =>
      obtain rfl | hinner := hinner
      · exact .inr (.inl ⟨rfl, rfl⟩)
      · exact .inr (.inr hinner)
    | cons next names =>
      obtain rfl | hinner := hinner
      · exact .inl ⟨_, rfl⟩
      · have hnext : inner = nest contents (next :: names) ∨ inner.Within (nest contents (next :: names)).scope := by
          cases hinner with
          | here hinner => exact .inl (List.mem_singleton.1 hinner)
          | inside houter hinner => exact .inr (List.mem_singleton.1 houter ▸ hinner)
        have hlevel : nest contents (next :: names) =
            { nest contents (next :: names) with isInline := (nest contents (next :: names)).isInline } := rfl
        obtain hlevel | ⟨hscope, hname⟩ | hwithin := ih hlevel hnext
        · exact .inl hlevel
        · exact .inr (.inl ⟨hscope, by rw [hname, List.getLast?_cons_cons]⟩)
        · exact .inr (.inr hwithin)

/-- What stands between the head of a namespace and the text behind it is its body. -/
theorem exists_body_of_parserWith {body : Parser Scope} {input behind : Text} {outer : Namespace}
    (hread : parserWith body input = .ok outer behind) : ∃ head place contents mid names isInline,
      input = head ++ '\x7b' :: place ∧ body place = .ok contents mid ∧ outer = { nest contents names with isInline } := by
  obtain ⟨_, place1, hspaces, hread⟩ := bind_eq_ok.1 hread
  obtain ⟨inlineWord, place2, hinline, hread⟩ := bind_eq_ok.1 hread
  obtain ⟨_, place3, hword, hread⟩ := bind_eq_ok.1 hread
  obtain ⟨_, place4, hattributes, hread⟩ := bind_eq_ok.1 hread
  obtain ⟨names, place5, hnames, hread⟩ := bind_eq_ok.1 hread
  obtain ⟨_, place6, hbehind, hread⟩ := bind_eq_ok.1 hread
  obtain ⟨_, place, hbrace, hread⟩ := bind_eq_ok.1 hread
  obtain ⟨contents, mid, hbody, hread⟩ := bind_eq_ok.1 hread
  obtain ⟨_, _, -, hread⟩ := bind_eq_ok.1 hread
  cases hread
  obtain ⟨-, rfl⟩ := char_eq_ok.1 hbrace
  have hsuffix : '\x7b' :: place <:+ input :=
    (((((Bounded.suffix hbehind).trans (Bounded.suffix hnames)).trans (Bounded.suffix hattributes)).trans
      (Bounded.suffix hword)).trans (Bounded.suffix hinline)).trans (Bounded.suffix hspaces)
  obtain ⟨head, rfl⟩ := hsuffix
  exact ⟨head, place, contents, mid, names.getD [], inlineWord.isSome, rfl, hbody, rfl⟩

end Namespace

open Namespace (Within DefinedIn)

namespace Scope

/-- Only a namespace definition is read as a namespace. -/
theorem namespaceBlock_of_scopeItem {room : Nat} {input rest : Text} {inner : Namespace}
    (hitem : scopeItem room input = .ok (.enclosed inner) rest) :
    namespaceBlock room (input.dropWhile isSpace) = .ok inner rest := by
  obtain ⟨_, place, hspaces, hchoice⟩ := bind_eq_ok.1 hitem
  cases hspaces
  -- Of all alternatives, one gives an item of this kind.
  simpa [map_eq_ok, unrecognized, namespaceBlock] using firstOf_eq_ok hchoice

/-- Every namespace at any depth is defined in the text that was read. The induction is on the room: the body of a
namespace has less of it than the scope around. -/
theorem exists_definedIn {room : Nat} {isBlock : Bool} {input rest : Text} {contents : Scope}
    (hscope : scope room isBlock input = .ok contents rest) {inner : Namespace} (hinner : inner.Within contents) :
    ∃ own, DefinedIn input inner own := by
  induction room using Nat.strong_induction_on generalizing isBlock input rest contents inner with
  | _ room ih =>
    obtain ⟨lower, rfl, readings, ending, rfl, hreadings, -, hcollects⟩ := assembled_of_scope hscope
    obtain rfl := hcollects.eq_ofItems
    rw [← ofItems_allLeaves hreadings] at hinner
    have hnamespaces := (collects_ofItems (allLeaves readings)).namespaces
    obtain ⟨outer, houter, hinner⟩ : ∃ outer ∈ (ofItems (allLeaves readings)).namespaces,
        inner = outer ∨ inner.Within outer.scope := by
      cases hinner with
      | here hinner => exact ⟨inner, hinner, .inl rfl⟩
      | inside houter hinner => exact ⟨_, houter, .inr hinner⟩
    rw [hnamespaces, List.mem_flatMap] at houter
    obtain ⟨item, hitem, houter⟩ := houter
    have hne := hreadings.ne_linkage item hitem
    obtain rfl : item = .enclosed outer := by
      cases item with
      | enclosed inner => rw [List.mem_singleton.1 houter]
      | linkage contents => exact absurd rfl (hne contents)
      | _ => cases houter
    obtain ⟨bodyRoom, hroom, place, behind, hplace, hread⟩ := hreadings.exists_scopeItem hitem
    have hblock := namespaceBlock_of_scopeItem hread
    have hplace := (List.dropWhile_suffix isSpace).trans hplace
    obtain ⟨head, bodyText, bodyContents, mid, names, isInline, hhead, hbody, heq⟩ := Namespace.exists_body_of_parserWith hblock
    rw [hhead] at hblock hplace
    obtain ⟨next, hlevel⟩ | ⟨rfl, hname⟩ | hwithin := Within.of_nest heq hinner
    · exact ⟨[], .level hlevel⟩
    · obtain ⟨bodyLower, rfl, bodyReadings, bodyEnding, rfl, hbodyReadings, hbodyEnds, hbodyCollects⟩ := assembled_of_scope hbody
      have hbodyLeaves : inner.scope.Collects (allLeaves bodyReadings) := by
        rw [hbodyCollects.eq_ofItems, ← ofItems_allLeaves hbodyReadings]
        exact collects_ofItems _
      rw [heq] at hblock
      exact ⟨_, DefinedIn.of_suffix (.body [] hblock hname hbodyReadings hbodyEnds hbodyLeaves) hplace⟩
    · obtain ⟨own, hdefined⟩ := ih bodyRoom (Nat.lt_succ_of_le hroom) hbody hwithin
      refine ⟨own, hdefined.of_suffix (List.IsSuffix.trans ?_ hplace)⟩
      exact (List.suffix_cons _ _).trans (List.suffix_append _ _)

end Scope

/-! ### Fields of a document -/

namespace Json

variable {α : Type} {key : String} {encode : α → Json} {items : List α}

/-- The values of all fields under the key. -/
def valuesUnder (key : String) (fields : List (Text × Json)) : List Json :=
  (fields.filter fun field => field.1 == key.toList).map Prod.snd

/-- The values of an object under the key. -/
def valuesAt (key : String) : Json → List Json
  | .object fields => valuesUnder key fields
  | _ => []

/-- What stands under the key of a list. One that is not kept has no field when it is empty. -/
def listed (isKept : Bool) (encode : α → Json) (items : List α) : List Json :=
  if isKept || !items.isEmpty then [ofList encode items] else []

/-- The object lists these directives, those of each kind under one key. -/
structure ListsDirectives (object : Json) (isKept : Bool) (own : List Directive) : Prop where
  includes : object.valuesAt "includes" = listed isKept Include.toJson (own.filterMap Directive.inclusion?)
  defines : object.valuesAt "defines" = listed isKept Define.toJson (own.filterMap Directive.definition?)
  pragmas : object.valuesAt "pragmas" = listed isKept .string (own.filterMap Directive.pragma?)
  conditionals : object.valuesAt "conditionals" = listed isKept .string (own.filterMap Directive.conditional?)

theorem valuesUnder_append (key : String) (fields others : List (Text × Json)) :
    valuesUnder key (fields ++ others) = valuesUnder key fields ++ valuesUnder key others := by
  rw [valuesUnder, List.filter_append, List.map_append]
  rfl

theorem valuesUnder_fieldUnlessEmpty (key : String) (encode : α → Json) (items : List α) :
    valuesUnder key (fieldUnlessEmpty key encode items) = listed false encode items := by
  cases items with
  | nil => rfl
  | cons a items => simp [valuesUnder, fieldUnlessEmpty, listed, field]

theorem valuesUnder_fieldUnlessEmpty_of_ne {other : String} (hne : other.toList ≠ key.toList) :
    valuesUnder key (fieldUnlessEmpty other encode items) = [] := by
  cases items with
  | nil => rfl
  | cons a items => simp [valuesUnder, fieldUnlessEmpty, field, hne]

end Json

open Json (valuesUnder valuesUnder_append valuesUnder_fieldUnlessEmpty valuesUnder_fieldUnlessEmpty_of_ne)

theorem Scope.valuesUnder_toFields_namespaces (contents : Scope) :
    valuesUnder "namespaces" contents.toFields = [.array (contents.namespaces.map namespaceJson)] := by
  simp (disch := decide) only [toFields_eq, fields, valuesUnder_append, valuesUnder_fieldUnlessEmpty_of_ne]
  rfl

/-- The fields of a scope list its directives. -/
theorem Scope.HoldsDirectives.fields {contents : Scope} {own : List Directive} (hholds : contents.HoldsDirectives own) :
    Json.ListsDirectives (.object contents.toFields) false own := by
  constructor <;> simp (disch := decide) only [Json.valuesAt, toFields_eq, Scope.fields, valuesUnder_append,
    valuesUnder_fieldUnlessEmpty, valuesUnder_fieldUnlessEmpty_of_ne, List.append_nil]
  · rw [hholds.inclusions]
    rfl
  · rw [hholds.definitions]
    rfl
  · rw [hholds.pragmas]
    rfl
  · rw [hholds.conditionals]
    rfl

theorem namespaceJson_valuesAt (key : String) (inner : Namespace) : (namespaceJson inner).valuesAt key =
    valuesUnder key [field "name" (Json.text? inner.name), field "inline" (.bool inner.isInline)] ++
      valuesUnder key inner.scope.toFields := by
  rw [namespaceJson_eq, Json.valuesAt, valuesUnder_append]

theorem namespaceJson_listsDirectives {inner : Namespace} {own : List Directive} (hholds : inner.scope.HoldsDirectives own) :
    (namespaceJson inner).ListsDirectives false own := by
  obtain ⟨hincludes, hdefines, hpragmas, hconditionals⟩ := hholds.fields
  constructor <;> rw [namespaceJson_valuesAt]
  · exact hincludes
  · exact hdefines
  · exact hpragmas
  · exact hconditionals

namespace Header

/-- The fields of the document in front of those of the scope. -/
def ownFields (header : Header) (path : Text) : List (Text × Json) :=
  [field "file" (.string path),
   field "includes" (ofList Include.toJson header.inclusions),
   field "defines" (ofList Define.toJson header.definitions),
   field "pragmas" (Json.texts header.pragmas),
   field "conditionals" (Json.texts header.conditionals)]

theorem document_valuesAt (key : String) (header : Header) (path : Text) : (header.document path).valuesAt key =
    valuesUnder key (header.ownFields path) ++ valuesUnder key header.scope.toFields := by
  rw [← valuesUnder_append]
  rfl

theorem document_listsDirectives {contents : Scope} {own : List Directive} (hholds : contents.HoldsDirectives own)
    (path : Text) : ((ofScope contents).document path).ListsDirectives true own := by
  have hscope : (ofScope contents).scope.HoldsDirectives [] := ⟨rfl, rfl, rfl, rfl⟩
  obtain ⟨hincludes, hdefines, hpragmas, hconditionals⟩ := hscope.fields
  constructor <;> rw [document_valuesAt]
  · rw [← hholds.inclusions]
    exact congrArg ([ofList Include.toJson contents.inclusions] ++ ·) hincludes
  · rw [← hholds.definitions]
    exact congrArg ([ofList Define.toJson contents.definitions] ++ ·) hdefines
  · rw [← hholds.pragmas]
    exact congrArg ([Json.texts contents.pragmas] ++ ·) hpragmas
  · rw [← hholds.conditionals]
    exact congrArg ([Json.texts contents.conditionals] ++ ·) hconditionals

end Header

/-- In the document of a header that was parsed, no object has a key twice, and the text written for it says just that.
The outermost object lists the directives that stand directly in the header, in their order, under one key for each
kind. Each namespace, at any depth, lists those that stand directly in it, under keys that are left out when there is
nothing to list. What stands in blocks with a language linkage stands directly in what is around them. -/
theorem header_directives {path source : Text} {found : Header} (hparse : Header.parse path source = .ok found) :
    (found.document path).DistinctKeys ∧
    (∀ layout, Json.read (found.write path layout) = some (found.document path)) ∧
    (∃ readings ending, Header.withoutByteOrderMark source = texts readings ++ ending ∧
      ReadAs false (nestingLimit - 1) readings ending ∧ Ends false ending [] ∧
      (found.document path).ListsDirectives true (directives (allLeaves readings)) ∧
      (found.document path).valuesAt "namespaces" = [.array (found.scope.namespaces.map namespaceJson)]) ∧
    ∀ inner, inner.Within found.scope → ∃ own, DefinedIn (Header.withoutByteOrderMark source) inner own ∧
      (namespaceJson inner).ListsDirectives false own ∧
      (namespaceJson inner).valuesAt "namespaces" = [.array (inner.scope.namespaces.map namespaceJson)] := by
  have hwithout := Header.parse_withoutDirectives hparse
  obtain ⟨contents, hscope, rfl⟩ : ∃ contents, scope nestingLimit false (Header.withoutByteOrderMark source) = .ok contents [] ∧
      Header.ofScope contents = found := by
    unfold Header.parse at hparse
    split at hparse
    · next hheader =>
      cases hparse
      exact map_eq_ok.1 hheader
    all_goals cases hparse
  refine ⟨Header.document_distinctKeys hwithout path, Header.read_write hwithout path, ?_, fun inner hinner => ?_⟩
  · obtain ⟨_, hroom, readings, ending, htext, hreadings, hends, hcollects⟩ := Scope.assembled_of_scope hscope
    obtain rfl := Nat.succ.inj hroom
    rw [List.append_nil] at htext hreadings
    refine ⟨readings, ending, htext, hreadings, hends, ?_, ?_⟩
    · rw [hcollects.eq_ofItems, ← Scope.ofItems_allLeaves hreadings]
      exact Header.document_listsDirectives ((Scope.collects_ofItems _).holdsDirectives hreadings.ne_linkage) path
    · rw [Header.document_valuesAt, Scope.valuesUnder_toFields_namespaces]
      rfl
  · obtain ⟨own, hdefined⟩ := Scope.exists_definedIn hscope (hinner.of_namespaces_eq rfl)
    refine ⟨own, hdefined, namespaceJson_listsDirectives hdefined.holdsDirectives, ?_⟩
    rw [namespaceJson_valuesAt, Scope.valuesUnder_toFields_namespaces]
    rfl

/-- A conditional in a block with a language linkage, and a pragma in a namespace. -/
def nestedDirectives : Text := "extern \"C\"\x7b\n#if B\n\x7d\nnamespace n \x7b\n#pragma c\n\x7d".toList

set_option maxRecDepth 20000 in
theorem header_directives_nested : ∃ found, Header.parse [] nestedDirectives = .ok found ∧
    found.conditionals = ["#if B".toList] ∧ found.scope.namespaces.map (·.scope.pragmas) = [[['c']]] ∧
    (found.document []).DistinctKeys ∧ (∃ own, (found.document []).ListsDirectives true own) ∧
    ∀ inner ∈ found.scope.namespaces, ∃ own, (namespaceJson inner).ListsDirectives false own := by
  obtain ⟨found, hparse, hview⟩ : ∃ found, Header.parse [] nestedDirectives = .ok found ∧
      (found.conditionals, found.scope.namespaces.map (·.scope.pragmas)) = (["#if B".toList], [[['c']]]) := by
    have hview : (Header.parse [] nestedDirectives).toOption.map
        (fun found => (found.conditionals, found.scope.namespaces.map (·.scope.pragmas))) =
        some (["#if B".toList], [[['c']]]) := by decide +kernel
    cases hresult : Header.parse [] nestedDirectives with
    | error =>
      rw [hresult] at hview
      cases hview
    | ok found =>
      rw [hresult] at hview
      exact ⟨found, rfl, Option.some.inj hview⟩
  obtain ⟨hconditionals, hpragmas⟩ := Prod.mk.inj hview
  obtain ⟨hdistinct, -, ⟨_, _, -, -, -, hlists, -⟩, hinner⟩ := header_directives hparse
  refine ⟨found, hparse, hconditionals, hpragmas, hdistinct, ⟨_, hlists⟩, fun inner hmem => ?_⟩
  obtain ⟨own, -, hown, -⟩ := hinner inner (.here hmem)
  exact ⟨own, hown⟩

end HeaderOutline
