import HeaderOutline.Proofs.Counts.Message
import HeaderOutline.Proofs.Document.Directives
/-!
# Counts and documents

The counts of a header are the sizes of the arrays in its document: those of the outermost object and those of the
namespaces in it, at any depth. A record has lists under some of the same keys, which do not count.
-/

namespace HeaderOutline

open Json (field valuesUnder valuesUnder_append)

/-- The key of the list of such declarations. -/
def DeclarationKind.key : DeclarationKind → String
  | .enclosed => "namespaces"
  | .record => "classes"
  | .function => "functions"
  | .var => "variables"
  | .enumeration => "enums"
  | .alias => "typedefs"

/-! ### Counts of scopes -/

namespace Counts

theorem get_add (counts other : Counts) (kind : DeclarationKind) :
    (counts + other).get kind = counts.get kind + other.get kind := by
  cases kind <;> rfl

theorem get_ofScope (scope : Scope) (kind : DeclarationKind) : (ofScope scope).get kind =
    (own scope).get kind + (scope.namespaces.map fun inner => (ofScope inner.scope).get kind).sum := by
  have hinner (namespaces : List Namespace) : (ofNamespaces namespaces).get kind =
      (namespaces.map fun inner => (ofScope inner.scope).get kind).sum := by
    induction namespaces with
    | nil =>
      rw [ofNamespaces]
      cases kind <;> rfl
    | cons inner namespaces ih =>
      obtain ⟨name, isInline, contents⟩ := inner
      rw [ofNamespaces, get_add, ih, ofNamespace, List.map_cons, List.sum_cons]
  obtain ⟨namespaces⟩ := scope
  rw [ofScope, get_add, hinner]

theorem get_own_append (first second : Scope) (kind : DeclarationKind) :
    (own (first ++ second)).get kind = (own first).get kind + (own second).get kind := by
  cases kind <;> exact List.length_append

/-- The counts of two scopes together are the sums of their counts. -/
theorem ofScope_append (first second : Scope) : ofScope (first ++ second) = ofScope first + ofScope second := by
  refine eq_of_get fun kind => ?_
  have hnamespaces : (first ++ second).namespaces = first.namespaces ++ second.namespaces := rfl
  rw [get_add, get_ofScope, get_ofScope first, get_ofScope second, get_own_append, hnamespaces, List.map_append, List.sum_append]
  omega

end Counts

/-! ### Arrays in documents -/

namespace Json

/-- The items of an array. -/
def items : Json → List Json
  | .array items => items
  | _ => []

mutual

/-- The object and, at any depth, the objects in its arrays of namespaces. -/
def levels : Json → List Json
  | .object fields => .object fields :: levelsInFields fields
  | _ => []

def levelsInFields : List (Text × Json) → List Json
  | [] => []
  | (key, value) :: fields => (if key == "namespaces".toList then levelsInArray value else []) ++ levelsInFields fields

def levelsInArray : Json → List Json
  | .array items => levelsInItems items
  | _ => []

def levelsInItems : List Json → List Json
  | [] => []
  | item :: items => levels item ++ levelsInItems items

end

/-- What the arrays under the key list, in the object and in the namespaces in it. -/
def listedUnder (key : String) (object : Json) : List Json :=
  object.levels.flatMap fun level => (level.valuesAt key).flatMap items

theorem levelsInItems_eq (items : List Json) : levelsInItems items = items.flatMap levels := by
  induction items with
  | nil => rfl
  | cons item items ih => rw [levelsInItems, ih, List.flatMap_cons]

theorem levelsInFields_eq (fields : List (Text × Json)) :
    levelsInFields fields = ((valuesUnder "namespaces" fields).flatMap items).flatMap levels := by
  have harray (value : Json) : levelsInArray value = value.items.flatMap levels := by
    cases value with
    | array items => exact levelsInItems_eq items
    | _ => rfl
  induction fields with
  | nil => rfl
  | cons field fields ih =>
    obtain ⟨key, value⟩ := field
    rw [levelsInFields, ih, harray]
    rw [valuesUnder, valuesUnder, List.filter_cons]
    by_cases hkey : (key == "namespaces".toList) = true
    · rw [if_pos hkey, if_pos hkey, List.map_cons, List.flatMap_cons, List.flatMap_append]
    · rw [if_neg hkey, if_neg hkey, List.nil_append]

theorem listedUnder_object (key : String) (fields : List (Text × Json)) : listedUnder key (.object fields) =
    (valuesUnder key fields).flatMap items ++ ((valuesUnder "namespaces" fields).flatMap items).flatMap (listedUnder key) := by
  rw [listedUnder, levels, List.flatMap_cons, levelsInFields_eq, List.flatMap_assoc]
  rfl

end Json

open Json (listedUnder listedUnder_object)

/-- The list of a kind has as many items as the scope has declarations of the kind. -/
theorem Scope.items_toFields (contents : Scope) (kind : DeclarationKind) :
    ((valuesUnder kind.key contents.toFields).flatMap Json.items).length = (Counts.own contents).get kind := by
  cases kind <;>
    simp (disch := decide) only [toFields_eq, fields, valuesUnder_append, Json.valuesUnder_fieldUnlessEmpty_of_ne,
      DeclarationKind.key] <;>
    simp [valuesUnder, field, Json.items, Json.ofList, Counts.own, Counts.get]

/-- Fields in front of those of a scope make no difference if they have other keys. -/
theorem Scope.length_listedUnder (kind : DeclarationKind) (contents : Scope) {front : List (Text × Json)}
    (hkey : ∀ kind : DeclarationKind, valuesUnder kind.key front = []) :
    (listedUnder kind.key (.object (front ++ contents.toFields))).length = (Counts.ofScope contents).get kind := by
  induction contents using Scope.inductionOn generalizing front with
  | step contents ih =>
    have hinner : ∀ inner ∈ contents.namespaces,
        (listedUnder kind.key (namespaceJson inner)).length = (Counts.ofScope inner.scope).get kind := by
      intro inner hmem
      rw [namespaceJson_eq]
      exact ih inner hmem fun kind => by cases kind <;> rfl
    have hnamespaces : valuesUnder "namespaces" (front ++ contents.toFields) =
        [.array (contents.namespaces.map namespaceJson)] := by
      rw [valuesUnder_append, valuesUnder_toFields_namespaces]
      exact congrArg (· ++ _) (hkey .enclosed)
    rw [listedUnder_object, hnamespaces, valuesUnder_append, hkey, List.nil_append, List.length_append, items_toFields,
      Counts.get_ofScope, List.flatMap_singleton, Json.items, List.flatMap_map, List.length_flatMap]
    rw [List.map_congr_left hinner]

/-- The text written for a header stands for a document in which, at the level of the header and in all namespaces
together, the arrays under the key of each kind have as many elements as are counted. The counts of two scopes add up
when the scopes are put together, and the message tells the counts. -/
theorem counts_document :
    (∀ (header : Header) (path : Text) (layout : Json.Layout), ∃ body, header.write path layout = body ++ ['\n'] ∧
      Json.Denotes (header.document path) body ∧
      ∀ kind : DeclarationKind, (Counts.ofScope header.scope).get kind = (listedUnder kind.key (header.document path)).length) ∧
    (∀ first second : Scope, Counts.ofScope (first ++ second) = Counts.ofScope first + Counts.ofScope second) ∧
    ∀ counts other : Counts, counts.message = other.message ↔ counts = other := by
  refine ⟨fun header path layout => ?_, Counts.ofScope_append, fun counts other => Counts.message_injective.eq_iff⟩
  obtain ⟨body, hbody, hdenotes, -⟩ := header.write_eq path layout
  refine ⟨body, hbody, hdenotes, fun kind => ?_⟩
  have hfields : header.document path = .object (header.ownFields path ++ header.scope.toFields) := rfl
  rw [hfields, Scope.length_listedUnder kind header.scope fun kind => by cases kind <;> rfl]

end HeaderOutline
