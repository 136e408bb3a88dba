import HeaderOutline.CType.Render
import HeaderOutline.Header
import HeaderOutline.Json.Basic
/-!
# Documents

The JSON description of a header and of each of its parts. Types are described by their text. Lists by
access have one field for each access under which something was filed.
-/

namespace HeaderOutline

open Json (field texts text? ofList ofOption fieldUnlessEmpty)

def CType.toJson (type : CType) : Json := .string type.render

def TemplateParam.toJson (param : TemplateParam) : Json :=
  .object ([field "name" (text? param.name)]
    ++ (match param.type with
      | some type => [field "type" type.toJson]
      | none => [])
    ++ [field "default_value" (text? param.defaultValue),
        field "variadic" (.bool param.isVariadic)])

def Param.toJson (param : Param) : Json := .object
  [field "name" (text? param.name),
   field "type" param.type.toJson,
   field "is_const" (.bool param.isConst),
   field "default_value" (text? param.defaultValue)]

def EnumeratorValue.toJson : EnumeratorValue → Json
  | .int value => .int value
  | .text expression => .string expression

def Enumerator.toJson (enumerator : Enumerator) : Json := .object
  [field "name" (.string enumerator.name),
   field "value" (ofOption EnumeratorValue.toJson enumerator.value),
   field "comment" (text? enumerator.comment)]

def Enumeration.toJson (enumeration : Enumeration) : Json := .object
  [field "name" (text? enumeration.name),
   field "is_scoped" (.bool enumeration.isScoped),
   field "type" (ofOption CType.toJson enumeration.type),
   field "variants" (ofList Enumerator.toJson enumeration.enumerators),
   field "is_forward_declaration" (.bool enumeration.isForwardDeclaration),
   field "instances" (texts enumeration.instances),
   field "comment" (text? enumeration.comment)]

def FunctionDecl.toJson (function : FunctionDecl) : Json := .object
  [field "name" (.string function.name),
   field "api" (text? function.api),
   field "return_type" (ofOption CType.toJson function.returnType),
   field "template_params" (ofList TemplateParam.toJson function.templateParams),
   field "params" (ofList Param.toJson function.params),
   field "specifiers" (texts (function.specifiers.map FunctionSpecifier.word)),
   field "is_const" (.bool function.isConst),
   field "is_noexcept" (.bool function.isNoexcept),
   field "is_pure_virtual" (.bool function.isPureVirtual),
   field "is_deleted" (.bool function.isDeleted),
   field "is_defaulted" (.bool function.isDefaulted),
   field "is_variadic" (.bool function.isVariadic),
   field "has_body" (.bool function.hasBody),
   field "comment" (text? function.comment)]

def Variable.toJson (declared : Variable) : Json := .object
  [field "name" (.string declared.name),
   field "type" declared.type.toJson,
   field "default_value" (text? declared.defaultValue),
   field "bitfield" (text? declared.bitfield),
   field "modifiers" (texts (declared.modifiers.map VariableModifier.word)),
   field "comment" (text? declared.comment)]

def AliasKind.word : AliasKind → Text
  | .typedef => "typedef".toList
  | .using => "using".toList

def Alias.toJson (declared : Alias) : Json := .object
  [field "name" (.string declared.name),
   field "type" declared.type.toJson,
   field "kind" (.string declared.kind.word),
   field "template_params" (ofList TemplateParam.toJson declared.templateParams),
   field "comment" (text? declared.comment)]

def Include.toJson (target : Include) : Json := .object
  [field "path" (.string target.path),
   field "system" (.bool target.isSystem)]

def Define.toJson (definition : Define) : Json := .object
  [field "name" (.string definition.name),
   field "params" (ofOption texts definition.params),
   field "value" (text? definition.value)]

def Base.toJson (base : Base) : Json := .object
  [field "name" base.type.toJson,
   field "visibility" (.string base.access.word),
   field "is_virtual" (.bool base.isVirtual)]

/-- An object with a field for each access that has a list. -/
def ByAccess.toJson {α : Type} (encode : α → Json) (lists : ByAccess α) : Json :=
  .object (lists.entries.map fun (access, items) => (access.word, ofList encode items))

/-- The description of a record, given that of the records inside it. -/
def Record.describe (record : Record) (inner : Json) : Json := .object
  [field "name" (text? record.name),
   field "kind" (.string record.kind.word),
   field "api" (text? record.api),
   field "template_params" (ofList TemplateParam.toJson record.templateParams),
   field "specialization" (text? record.specialization),
   field "parents" (ofList Base.toJson record.bases),
   field "methods" (record.methods.toJson FunctionDecl.toJson),
   field "members" (record.members.toJson Variable.toJson),
   field "inner_classes" inner,
   field "enums" (record.enumerations.toJson Enumeration.toJson),
   field "typedefs" (record.aliases.toJson Alias.toJson),
   field "friends" (texts record.friends),
   field "is_final" (.bool record.isFinal),
   field "is_forward_declaration" (.bool record.isForwardDeclaration),
   field "instances" (texts record.instances),
   field "comment" (text? record.comment)]

mutual

def Record.toJson : Record → Json
  | record@⟨_, _, _, _, _, _, _, _, records, _, _, _, _, _, _, _⟩ => record.describe (innerRecords records)

def innerRecords : ByAccess Record → Json
  | ⟨publicRecords, protectedRecords, privateRecords⟩ =>
    .object (recordsUnder .isPublic publicRecords ++ recordsUnder .isProtected protectedRecords
      ++ recordsUnder .isPrivate privateRecords)

def recordsUnder (access : Access) : Option (List Record) → List (Text × Json)
  | none => []
  | some records => [(access.word, .array (recordList records))]

def recordList : List Record → List Json
  | [] => []
  | record :: records => record.toJson :: recordList records

end

/-- The fields of a scope, given the descriptions of the namespaces in it. -/
def Scope.fields (scope : Scope) (namespaces : List Json) : List (Text × Json) :=
  [field "namespaces" (.array namespaces),
   field "classes" (ofList Record.toJson scope.records),
   field "functions" (ofList FunctionDecl.toJson scope.functions),
   field "variables" (ofList Variable.toJson scope.vars),
   field "enums" (ofList Enumeration.toJson scope.enumerations),
   field "typedefs" (ofList Alias.toJson scope.aliases),
   field "using" (texts scope.usings),
   field "comments" (texts scope.comments)]
    ++ fieldUnlessEmpty "includes" Include.toJson scope.inclusions
    ++ fieldUnlessEmpty "defines" Define.toJson scope.definitions
    ++ fieldUnlessEmpty "pragmas" .string scope.pragmas
    ++ fieldUnlessEmpty "conditionals" .string scope.conditionals

mutual

def Scope.toFields : Scope → List (Text × Json)
  | scope@⟨namespaces, _, _, _, _, _, _, _, _, _, _, _⟩ => scope.fields (namespaceList namespaces)

def namespaceList : List (Enclosed Scope) → List Json
  | [] => []
  | inner :: namespaces => namespaceJson inner :: namespaceList namespaces

def namespaceJson : Enclosed Scope → Json
  | ⟨name, isInline, scope⟩ =>
    .object ([field "name" (text? name), field "inline" (.bool isInline)] ++ scope.toFields)

end

def Scope.toJson (scope : Scope) : Json := .object scope.toFields

def Header.toFields (header : Header) : List (Text × Json) :=
  [field "includes" (ofList Include.toJson header.inclusions),
   field "defines" (ofList Define.toJson header.definitions),
   field "pragmas" (texts header.pragmas),
   field "conditionals" (texts header.conditionals)]
    ++ header.scope.toFields

def Header.toJson (header : Header) : Json := .object header.toFields

/-- The description of the header in the file at `path`. -/
def Header.document (header : Header) (path : Text) : Json :=
  .object (field "file" (.string path) :: header.toFields)

end HeaderOutline
