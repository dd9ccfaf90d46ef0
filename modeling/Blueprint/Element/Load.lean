import Blueprint.Element.Basic
import Blueprint.Json.Record

/-!
# Loading elements from JSON

An element is a record of a tag and a value, and the tag settles what the value must be.
Elements without content take no value or null, and so does any tag that is not known.
Whatever does not fit is refused as a whole.
-/

set_option autoImplicit false

namespace Blueprint

/-! ## Substitutions -/

/-- A path item is an object with its one member named `field` or `index`. -/
def PathItem.load (json : Json) : Option PathItem :=
  match json.variant? with
  | some ("field", some content) => content.text?.map field
  | some ("index", some content) => content.int64?.map index
  | _ => none

namespace Substitution

/-- The substitutions that hold no other, by tag. -/
def loadFlat (tag : String) (content : Json) : Option Substitution :=
  match tag with
  | "stringLiteral" => content.text?.map stringLiteral
  | "intLiteral" => content.int64?.map intLiteral
  | "floatLiteral" => content.decimal?.map floatLiteral
  | "boolLiteral" => content.bool?.map boolLiteral
  | "elemIndex" => match content with
    | .null => some elemIndexRef
    | _ => none
  | "variable" => do
    guard content.isObject
    let name ← content.required 0 "name" Json.text?
    return variableRef name
  | "value" => do
    guard content.isObject
    let name ← content.required 0 "name" Json.text?
    let path ← content.withDefault 1 "path" (Json.list? PathItem.load) []
    return valueRef name path
  | "resourceProperty" => do
    guard content.isObject
    let name ← content.required 0 "resourceName" Json.text?
    let index ← content.optionalOrEnd 1 "eachTemplateIndex" Json.int64?
    let path ← content.withDefault 2 "path" (Json.list? PathItem.load) []
    return resourceRef name index path
  | "dataSourceProperty" => do
    guard content.isObject
    let name ← content.required 0 "dataSourceName" Json.text?
    let fieldName ← content.required 1 "fieldName" Json.text?
    let index ← content.optionalOrEnd 2 "primitiveArrIndex" Json.int64?
    return dataSourceRef name fieldName index
  | "child" => do
    guard content.isObject
    let name ← content.required 0 "childName" Json.text?
    let path ← content.withDefault 1 "path" (Json.list? PathItem.load) []
    return childRef name path
  | "elem" => do
    guard content.isObject
    let path ← content.withDefault 0 "path" (Json.list? PathItem.load) []
    return elemRef path
  | _ => none

/-- A substitution is a variant; its fields, if it has any, are the members of an object. -/
def load (json : Json) : Option Substitution :=
  match json.variant?.attach with
  | none => none
  | some ⟨(tag, none), _⟩ => if tag == "elemIndex" then some elemIndexRef else none
  | some ⟨(tag, some content), _tagged⟩ =>
    if tag == "function" && content.isObject then do
      let name ← content.required 0 "name" Json.text?
      let arguments ← match (content.fieldAt? 1 "args").attach with
        | none => some []
        | some ⟨.array items, _found⟩ => items.attach.mapM fun ⟨item, _⟩ => do
            if item.isRecord 2 then
              let argumentName ← item.optional 0 "name" Json.text?
              let value ← match (item.fieldAt? 1 "value").attach with
                | none => none
                | some ⟨value, _inner⟩ => load value
              return FunctionArg.mk argumentName value
            else none
        | some _ => none
      return functionCall name arguments
    else loadFlat tag content
termination_by sizeOf json
decreasing_by
  have := Json.sizeOf_lt_of_variant? _tagged
  have := Json.sizeOf_lt_of_fieldAt? _found
  have := Json.sizeOf_lt_of_mem_items ‹item ∈ items›
  have := Json.sizeOf_lt_of_fieldAt? _inner
  omega

end Substitution

/-- An argument is a record of a name, which may be missing, and a substitution. -/
def FunctionArg.load (json : Json) : Option FunctionArg := do
  guard (json.isRecord 2)
  let name ← json.optional 0 "name" Json.text?
  let value ← json.required 1 "value" Substitution.load
  return .mk name value

/-- A piece of text is an object with its one member named `string` or `substitution`. -/
def TextPiece.load (json : Json) : Option TextPiece :=
  match json.variant? with
  | some ("string", some content) => content.text?.map string
  | some ("substitution", some content) => (Substitution.load content).map substitution
  | _ => none

/-- A text with substitutions is a record of its pieces. -/
def TemplateText.load (json : Json) : Option TemplateText := do
  guard (json.isRecord 1)
  let pieces ← json.required 0 "values" (Json.list? TextPiece.load)
  return ⟨pieces⟩

namespace Content

/-- Free content is an object with one member, whose name tells the form of the content. -/
def load (json : Json) : Option Content :=
  match json.variant?.attach with
  | some ⟨(tag, some content), _tagged⟩ =>
    if tag == "scalar" then some (scalar content.canonical)
    else if tag == "substitutions" then (TemplateText.load content).map substitutions
    else match content with
      | .object members =>
        if tag == "fields" then do
          let loaded ← (Json.sortMembers members).attach.mapM fun ⟨member, _⟩ => do
            let value ← load member.2
            return (member.1, value)
          return fields loaded
        else none
      | .array values =>
        if tag == "items" then do
          let loaded ← values.attach.mapM fun ⟨value, _⟩ => load value
          return items loaded
        else none
      | _ => none
  | _ => none
termination_by sizeOf json
decreasing_by
  · have := Json.sizeOf_lt_of_variant? _tagged
    have := Json.sizeOf_lt_of_mem_members (Json.mem_of_mem_sortMembers ‹member ∈ _›)
    omega
  · have := Json.sizeOf_lt_of_variant? _tagged
    have := Json.sizeOf_lt_of_mem_items ‹value ∈ values›
    omega

end Content

/-! ## Named elements and their parts -/

/-- A blueprint's version and transforms. -/
def BlueprintInfo.load (json : Json) : Option BlueprintInfo := do
  guard (json.isRecord 2)
  let version ← json.optional 0 "version" Json.text?
  let transform ← json.withDefault 1 "transform" (Json.list? Json.text?) []
  return { version, transform }

/-- A variable, which is no secret unless it says so. -/
def VariableInfo.load (json : Json) : Option VariableInfo := do
  guard (json.isRecord 6)
  let name ← json.required 0 "name" Json.text?
  let type ← json.optional 1 "type" Json.text?
  let description ← json.optional 2 "description" Json.text?
  let isSecret ← json.withDefault 3 "secret" Json.bool? false
  let defaultValue ← json.optional 4 "default" fun value => some value.canonical
  let allowedValues ← json.withDefault 5 "allowedValues"
    (Json.list? fun value => some value.canonical) []
  return { name, type, description, isSecret, defaultValue, allowedValues }

/-- A value, which is no secret unless it says so. -/
def ValueInfo.load (json : Json) : Option ValueInfo := do
  guard (json.isRecord 4)
  let name ← json.required 0 "name" Json.text?
  let type ← json.optional 1 "type" Json.text?
  let description ← json.optional 2 "description" Json.text?
  let isSecret ← json.withDefault 3 "secret" Json.bool? false
  return { name, type, description, isSecret }

/-- A child blueprint. -/
def IncludeInfo.load (json : Json) : Option IncludeInfo := do
  guard (json.isRecord 3)
  let name ← json.required 0 "name" Json.text?
  let path ← json.optional 1 "path" TemplateText.load
  let description ← json.optional 2 "description" Json.text?
  return { name, path, description }

/-- A resource. -/
def ResourceInfo.load (json : Json) : Option ResourceInfo := do
  guard (json.isRecord 4)
  let name ← json.required 0 "name" Json.text?
  let type ← json.optional 1 "type" Json.text?
  let description ← json.optional 2 "description" Json.text?
  let dependsOn ← json.withDefault 3 "dependsOn" (Json.list? Json.text?) []
  return { name, type, description, dependsOn }

/-- A data source. -/
def DataSourceInfo.load (json : Json) : Option DataSourceInfo := do
  guard (json.isRecord 3)
  let name ← json.required 0 "name" Json.text?
  let type ← json.optional 1 "type" Json.text?
  let description ← json.optional 2 "description" Json.text?
  return { name, type, description }

/-- An export. -/
def ExportInfo.load (json : Json) : Option ExportInfo := do
  guard (json.isRecord 4)
  let name ← json.required 0 "name" Json.text?
  let type ← json.optional 1 "type" Json.text?
  let field ← json.optional 2 "field" Json.text?
  let description ← json.optional 3 "description" Json.text?
  return { name, type, field, description }

/-- The metadata of a resource. -/
def ResourceMetadata.load (json : Json) : Option ResourceMetadata := do
  guard (json.isRecord 4)
  let displayName ← json.optional 0 "displayName" TemplateText.load
  let labels ← json.withDefault 1 "labels" (Json.map? Json.text?) []
  let annotations ← json.withDefault 2 "annotations" (Json.map? TemplateText.load) []
  let custom ← json.optional 3 "custom" Content.load
  return { displayName, labels, annotations, custom }

/-- A link selector. -/
def LinkSelector.load (json : Json) : Option LinkSelector := do
  guard (json.isRecord 2)
  let byLabel ← json.withDefault 0 "byLabel" (Json.map? Json.text?) []
  let exclude ← json.withDefault 1 "exclude" (Json.list? Json.text?) []
  return { byLabel, exclude }

/-- A filter of a data source. -/
def DataSourceFilter.load (json : Json) : Option DataSourceFilter := do
  guard (json.isRecord 3)
  let field ← json.optional 0 "field" Json.text?
  let operator ← json.optional 1 "operator" Json.text?
  let search ← json.optional 2 "search" TemplateText.load
  return { field, operator, search }

/-- A field that a data source exports. -/
def DataSourceExport.load (json : Json) : Option DataSourceExport := do
  guard (json.isRecord 4)
  let name ← json.required 0 "name" Json.text?
  let type ← json.optional 1 "type" Json.text?
  let aliasFor ← json.optional 2 "aliasFor" Json.text?
  let description ← json.optional 3 "description" Json.text?
  return { name, type, aliasFor, description }

/-! ## Elements -/

namespace Element

/-- An element without content of its own: it takes no value, or null. -/
def bare (element : Element) : Option Json → Option Element
  | none => some element
  | some .null => some element
  | some _ => none

/-- The element of a tag and a value. -/
def ofTag (tag : String) (value : Option Json) : Option Element :=
  match tag with
  | "blueprint" => value.bind BlueprintInfo.load |>.map blueprint
  | "version" => value.bind Json.text? |>.map version
  | "transform" => value.bind (Json.list? Json.text?) |>.map transform
  | "variableMap" => variableMap.bare value
  | "valueMap" => valueMap.bare value
  | "includeMap" => includeMap.bare value
  | "resourceMap" => resourceMap.bare value
  | "dataSourceMap" => dataSourceMap.bare value
  | "exportMap" => exportMap.bare value
  | "blueprintMetadata" => value.bind Content.load |>.map blueprintMetadata
  | "variable" => value.bind VariableInfo.load |>.map variableDefinition
  | "value" => value.bind ValueInfo.load |>.map valueDefinition
  | "include" => value.bind IncludeInfo.load |>.map includeDefinition
  | "resource" => value.bind ResourceInfo.load |>.map resourceDefinition
  | "dataSource" => value.bind DataSourceInfo.load |>.map dataSourceDefinition
  | "export" => value.bind ExportInfo.load |>.map exportDefinition
  | "resourceType" => value.bind Json.text? |>.map resourceType
  | "variableType" => value.bind Json.text? |>.map variableType
  | "valueType" => value.bind Json.text? |>.map valueType
  | "dataSourceType" => value.bind Json.text? |>.map dataSourceType
  | "exportType" => value.bind Json.text? |>.map exportType
  | "dataSourceFieldType" => value.bind Json.text? |>.map dataSourceFieldType
  | "description" => value.bind TemplateText.load |>.map description
  | "stringOrSubstitutions" => value.bind TemplateText.load |>.map templateText
  | "substitution" => value.bind Substitution.load |>.map substitution
  | "functionArg" => value.bind FunctionArg.load |>.map functionArg
  | "resourceMetadata" => value.bind ResourceMetadata.load |>.map resourceMetadata
  | "linkSelector" => value.bind LinkSelector.load |>.map linkSelector
  | "dependsOn" => value.bind (Json.list? Json.text?) |>.map dependsOn
  | "condition" => value.bind Content.load |>.map condition
  | "each" => value.bind TemplateText.load |>.map each
  | "dataSourceFilter" => value.bind DataSourceFilter.load |>.map dataSourceFilter
  | "dataSourceFilterOperator" => value.bind Json.text? |>.map dataSourceFilterOperator
  | "dataSourceFilterSearch" => value.bind TemplateText.load |>.map dataSourceFilterSearch
  | "dataSourceExports" => dataSourceExports.bare value
  | "dataSourceFieldExport" => value.bind DataSourceExport.load |>.map dataSourceExport
  | "dataSourceMetadata" => value.bind Content.load |>.map dataSourceMetadata
  | "stringMap" => value.bind (Json.map? Json.text?) |>.map stringMap
  | "stringOrSubstitutionsMap" => value.bind (Json.map? TemplateText.load) |>.map templateMap
  | "mappingNode" => value.bind Content.load |>.map content
  | _ => unknown.bare value

/-- An element is an object with a tag and maybe a value, or an array of a tag and a value. In an
array the tag is its name alone. -/
def load : Json → Option Element
  | .object members => do
    let tag ← (Json.lastMember? "element" members).bind Json.bareVariant?
    ofTag tag (Json.lastMember? "value" members)
  | .array [tag, value] => do
    let tag ← tag.text?
    ofTag tag (some value)
  | _ => none

end Element

end Blueprint
