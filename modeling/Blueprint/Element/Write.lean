import Blueprint.Element.Basic

/-!
# Writing elements as JSON

An element is written as an object with its tag and, if it has content, its value. Fields that
are none and collections that are empty are left out of records; the fields of substitutions
are always written.
-/

set_option autoImplicit false

namespace Blueprint

namespace Json

/-- A member that is left out when there is no value. -/
def optionalMember {Value : Type} (name : String) (write : Value → Json) :
    Option Value → List (String × Json)
  | none => []
  | some value => [(name, write value)]

/-- A member with an array, left out when the array is empty. -/
def listMember {Value : Type} (name : String) (write : Value → Json) :
    List Value → List (String × Json)
  | [] => []
  | first :: rest => [(name, array ((first :: rest).map write))]

/-- An object with a member for each entry. -/
def ofEntries {Value : Type} (write : Value → Json) (entries : List (String × Value)) : Json :=
  object (entries.map fun entry => (entry.1, write entry.2))

/-- A member with an object, left out when the object is empty. -/
def mapMember {Value : Type} (name : String) (write : Value → Json) :
    List (String × Value) → List (String × Json)
  | [] => []
  | first :: rest => [(name, ofEntries write (first :: rest))]

/-- A value or null. -/
def orNull {Value : Type} (write : Value → Json) : Option Value → Json
  | none => null
  | some value => write value

end Json

/-! ## Substitutions -/

/-- The JSON form of a path item. -/
def PathItem.write : PathItem → Json
  | field name => .object [("field", .string name)]
  | index number => .object [("index", .integer number)]

/-- The JSON form of a property path. -/
def PathItem.writeAll (path : List PathItem) : Json := .array (path.map PathItem.write)

mutual
/-- The JSON form of a substitution. -/
def Substitution.write : Substitution → Json
  | .stringLiteral value => .object [("stringLiteral", .string value)]
  | .intLiteral value => .object [("intLiteral", .integer value)]
  | .floatLiteral value => .object [("floatLiteral", .decimal value)]
  | .boolLiteral value => .object [("boolLiteral", .bool value)]
  | .variableRef name => .object [("variable", .object [("name", .string name)])]
  | .valueRef name path =>
    .object [("value", .object [("name", .string name), ("path", PathItem.writeAll path)])]
  | .resourceRef name index path =>
    .object [("resourceProperty", .object
      [("resourceName", .string name), ("eachTemplateIndex", Json.orNull .integer index),
        ("path", PathItem.writeAll path)])]
  | .dataSourceRef name fieldName index =>
    .object [("dataSourceProperty", .object
      [("dataSourceName", .string name), ("fieldName", .string fieldName),
        ("primitiveArrIndex", Json.orNull .integer index)])]
  | .childRef name path =>
    .object [("child", .object [("childName", .string name), ("path", PathItem.writeAll path)])]
  | .elemRef path => .object [("elem", .object [("path", PathItem.writeAll path)])]
  | .elemIndexRef => .string "elemIndex"
  | .functionCall name arguments =>
    .object [("function", .object
      [("name", .string name), ("args", .array (Substitution.writeArguments arguments))])]

/-- The JSON form of an argument. -/
def FunctionArg.write : FunctionArg → Json
  | .mk name value =>
    .object (Json.optionalMember "name" .string name ++ [("value", Substitution.write value)])

/-- The JSON form of each argument. -/
def Substitution.writeArguments : List FunctionArg → List Json
  | [] => []
  | argument :: rest => FunctionArg.write argument :: Substitution.writeArguments rest
end

/-- The JSON form of a piece of text. -/
def TextPiece.write : TextPiece → Json
  | string value => .object [("string", .string value)]
  | substitution value => .object [("substitution", value.write)]

/-- The JSON form of a text with substitutions. -/
def TemplateText.write (text : TemplateText) : Json :=
  .object [("values", .array (text.pieces.map TextPiece.write))]

mutual
/-- The JSON form of free content. -/
def Content.write : Content → Json
  | .scalar value => .object [("scalar", value)]
  | .fields members => .object [("fields", .object (Content.writeMembers members))]
  | .items list => .object [("items", .array (Content.writeItems list))]
  | .substitutions text => .object [("substitutions", text.write)]

/-- The JSON form of each item. -/
def Content.writeItems : List Content → List Json
  | [] => []
  | item :: rest => Content.write item :: Content.writeItems rest

/-- The JSON form of each member. -/
def Content.writeMembers : List (String × Content) → List (String × Json)
  | [] => []
  | (name, value) :: rest => (name, Content.write value) :: Content.writeMembers rest
end

/-! ## Named elements and their parts -/

/-- The JSON form of a blueprint. -/
def BlueprintInfo.write (info : BlueprintInfo) : Json :=
  .object (Json.optionalMember "version" .string info.version ++
    Json.listMember "transform" .string info.transform)

/-- The JSON form of a variable. -/
def VariableInfo.write (info : VariableInfo) : Json :=
  .object ([("name", .string info.name)] ++
    Json.optionalMember "type" .string info.type ++
    Json.optionalMember "description" .string info.description ++
    [("secret", .bool info.isSecret)] ++
    Json.optionalMember "default" id info.defaultValue ++
    Json.listMember "allowedValues" id info.allowedValues)

/-- The JSON form of a value. -/
def ValueInfo.write (info : ValueInfo) : Json :=
  .object ([("name", .string info.name)] ++
    Json.optionalMember "type" .string info.type ++
    Json.optionalMember "description" .string info.description ++
    [("secret", .bool info.isSecret)])

/-- The JSON form of a child blueprint. -/
def IncludeInfo.write (info : IncludeInfo) : Json :=
  .object ([("name", .string info.name)] ++
    Json.optionalMember "path" TemplateText.write info.path ++
    Json.optionalMember "description" .string info.description)

/-- The JSON form of a resource. -/
def ResourceInfo.write (info : ResourceInfo) : Json :=
  .object ([("name", .string info.name)] ++
    Json.optionalMember "type" .string info.type ++
    Json.optionalMember "description" .string info.description ++
    Json.listMember "dependsOn" .string info.dependsOn)

/-- The JSON form of a data source. -/
def DataSourceInfo.write (info : DataSourceInfo) : Json :=
  .object ([("name", .string info.name)] ++
    Json.optionalMember "type" .string info.type ++
    Json.optionalMember "description" .string info.description)

/-- The JSON form of an export. -/
def ExportInfo.write (info : ExportInfo) : Json :=
  .object ([("name", .string info.name)] ++
    Json.optionalMember "type" .string info.type ++
    Json.optionalMember "field" .string info.field ++
    Json.optionalMember "description" .string info.description)

/-- The JSON form of a resource's metadata. -/
def ResourceMetadata.write (metadata : ResourceMetadata) : Json :=
  .object (Json.optionalMember "displayName" TemplateText.write metadata.displayName ++
    Json.mapMember "labels" .string metadata.labels ++
    Json.mapMember "annotations" TemplateText.write metadata.annotations ++
    Json.optionalMember "custom" Content.write metadata.custom)

/-- The JSON form of a link selector. -/
def LinkSelector.write (selector : LinkSelector) : Json :=
  .object (Json.mapMember "byLabel" .string selector.byLabel ++
    Json.listMember "exclude" .string selector.exclude)

/-- The JSON form of a filter. -/
def DataSourceFilter.write (filter : DataSourceFilter) : Json :=
  .object (Json.optionalMember "field" .string filter.field ++
    Json.optionalMember "operator" .string filter.operator ++
    Json.optionalMember "search" TemplateText.write filter.search)

/-- The JSON form of a field that a data source exports. -/
def DataSourceExport.write (info : DataSourceExport) : Json :=
  .object ([("name", .string info.name)] ++
    Json.optionalMember "type" .string info.type ++
    Json.optionalMember "aliasFor" .string info.aliasFor ++
    Json.optionalMember "description" .string info.description)

/-! ## Elements -/

namespace Element

/-- The tag of an element and its value, if it has content. -/
def tagAndValue : Element → String × Option Json
  | blueprint info => ("blueprint", some info.write)
  | version text => ("version", some (.string text))
  | transform names => ("transform", some (.array (names.map .string)))
  | variableMap => ("variableMap", none)
  | valueMap => ("valueMap", none)
  | includeMap => ("includeMap", none)
  | resourceMap => ("resourceMap", none)
  | dataSourceMap => ("dataSourceMap", none)
  | exportMap => ("exportMap", none)
  | blueprintMetadata inner => ("blueprintMetadata", some inner.write)
  | variableDefinition info => ("variable", some info.write)
  | valueDefinition info => ("value", some info.write)
  | includeDefinition info => ("include", some info.write)
  | resourceDefinition info => ("resource", some info.write)
  | dataSourceDefinition info => ("dataSource", some info.write)
  | exportDefinition info => ("export", some info.write)
  | resourceType name => ("resourceType", some (.string name))
  | variableType name => ("variableType", some (.string name))
  | valueType name => ("valueType", some (.string name))
  | dataSourceType name => ("dataSourceType", some (.string name))
  | exportType name => ("exportType", some (.string name))
  | dataSourceFieldType name => ("dataSourceFieldType", some (.string name))
  | description text => ("description", some text.write)
  | templateText text => ("stringOrSubstitutions", some text.write)
  | substitution inner => ("substitution", some inner.write)
  | functionArg argument => ("functionArg", some argument.write)
  | resourceMetadata metadata => ("resourceMetadata", some metadata.write)
  | linkSelector selector => ("linkSelector", some selector.write)
  | dependsOn names => ("dependsOn", some (.array (names.map .string)))
  | condition inner => ("condition", some inner.write)
  | each text => ("each", some text.write)
  | dataSourceFilter filter => ("dataSourceFilter", some filter.write)
  | dataSourceFilterOperator operator => ("dataSourceFilterOperator", some (.string operator))
  | dataSourceFilterSearch text => ("dataSourceFilterSearch", some text.write)
  | dataSourceExports => ("dataSourceExports", none)
  | dataSourceExport info => ("dataSourceFieldExport", some info.write)
  | dataSourceMetadata inner => ("dataSourceMetadata", some inner.write)
  | stringMap entries => ("stringMap", some (Json.ofEntries .string entries))
  | templateMap entries =>
    ("stringOrSubstitutionsMap", some (Json.ofEntries TemplateText.write entries))
  | content inner => ("mappingNode", some inner.write)
  | unknown => ("unknown", none)

/-- The JSON form of an element. -/
def write (element : Element) : Json :=
  let (tag, value) := element.tagAndValue
  .object ([("element", .string tag)] ++ Json.optionalMember "value" id value)

end Element

end Blueprint
