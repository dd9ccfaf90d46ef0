import Blueprint.Element.Basic

/-!
# Kinds of elements

What an element is, apart from its content. Substitutions are told apart by their form, and
free content counts as a scalar or as a text with substitutions where it is just that. An
element that is not there is of the unknown kind.
-/

set_option autoImplicit false

namespace Blueprint

/-- What an element is. -/
inductive ElementKind where
  | unknown
  | blueprint
  | version
  | transform
  | vars
  | values
  | includes
  | resources
  | dataSources
  | exports
  | blueprintMetadata
  | variableDefinition
  | valueDefinition
  | includeDefinition
  | resourceDefinition
  | dataSourceDefinition
  | exportDefinition
  | resourceType
  | variableType
  | valueType
  | dataSourceType
  | exportType
  | dataSourceFieldType
  | description
  | templateText
  | stringLiteral
  | intLiteral
  | floatLiteral
  | boolLiteral
  | variableRef
  | valueRef
  | resourceRef
  | dataSourceRef
  | childRef
  | elemRef
  | elemIndexRef
  | functionCall
  | functionArg
  | resourceMetadata
  | linkSelector
  | dependsOn
  | condition
  | each
  | dataSourceFilter
  | dataSourceFilterOperator
  | dataSourceFilterSearch
  | dataSourceExports
  | dataSourceExport
  | dataSourceMetadata
  | stringMap
  | templateMap
  | content
  | scalar
deriving DecidableEq, Repr

/-- The form of a substitution. -/
def Substitution.kind : Substitution → ElementKind
  | stringLiteral _ => .stringLiteral
  | intLiteral _ => .intLiteral
  | floatLiteral _ => .floatLiteral
  | boolLiteral _ => .boolLiteral
  | variableRef _ => .variableRef
  | valueRef _ _ => .valueRef
  | resourceRef _ _ _ => .resourceRef
  | dataSourceRef _ _ _ => .dataSourceRef
  | childRef _ _ => .childRef
  | elemRef _ => .elemRef
  | elemIndexRef => .elemIndexRef
  | functionCall _ _ => .functionCall

/-- Free content that is a scalar or a text counts as such. -/
def Content.kind : Content → ElementKind
  | scalar _ => .scalar
  | substitutions _ => .templateText
  | fields _ => .content
  | items _ => .content

/-- The kind of an element. -/
def Element.kind : Element → ElementKind
  | blueprint _ => .blueprint
  | version _ => .version
  | transform _ => .transform
  | variableMap => .vars
  | valueMap => .values
  | includeMap => .includes
  | resourceMap => .resources
  | dataSourceMap => .dataSources
  | exportMap => .exports
  | blueprintMetadata _ => .blueprintMetadata
  | variableDefinition _ => .variableDefinition
  | valueDefinition _ => .valueDefinition
  | includeDefinition _ => .includeDefinition
  | resourceDefinition _ => .resourceDefinition
  | dataSourceDefinition _ => .dataSourceDefinition
  | exportDefinition _ => .exportDefinition
  | resourceType _ => .resourceType
  | variableType _ => .variableType
  | valueType _ => .valueType
  | dataSourceType _ => .dataSourceType
  | exportType _ => .exportType
  | dataSourceFieldType _ => .dataSourceFieldType
  | description _ => .description
  | templateText _ => .templateText
  | substitution inner => inner.kind
  | functionArg _ => .functionArg
  | resourceMetadata _ => .resourceMetadata
  | linkSelector _ => .linkSelector
  | dependsOn _ => .dependsOn
  | condition _ => .condition
  | each _ => .each
  | dataSourceFilter _ => .dataSourceFilter
  | dataSourceFilterOperator _ => .dataSourceFilterOperator
  | dataSourceFilterSearch _ => .dataSourceFilterSearch
  | dataSourceExports => .dataSourceExports
  | dataSourceExport _ => .dataSourceExport
  | dataSourceMetadata _ => .dataSourceMetadata
  | stringMap _ => .stringMap
  | templateMap _ => .templateMap
  | content inner => inner.kind
  | unknown => .unknown

namespace ElementKind

/-- The kind of an element that may not be there. -/
def ofElement? (element : Option Element) : ElementKind := (element.map Element.kind).getD unknown

/-- The name of a kind. -/
def name : ElementKind → String
  | unknown => "unknown"
  | blueprint => "blueprint"
  | version => "version"
  | transform => "transform"
  | vars => "variables"
  | values => "values"
  | includes => "includes"
  | resources => "resources"
  | dataSources => "data_sources"
  | exports => "exports"
  | blueprintMetadata => "blueprint_metadata"
  | variableDefinition => "variable"
  | valueDefinition => "value"
  | includeDefinition => "include"
  | resourceDefinition => "resource"
  | dataSourceDefinition => "data_source"
  | exportDefinition => "export"
  | resourceType => "resource_type"
  | variableType => "variable_type"
  | valueType => "value_type"
  | dataSourceType => "data_source_type"
  | exportType => "export_type"
  | dataSourceFieldType => "data_source_field_type"
  | description => "description"
  | templateText => "string_or_substitutions"
  | stringLiteral => "string_literal"
  | intLiteral => "int_literal"
  | floatLiteral => "float_literal"
  | boolLiteral => "bool_literal"
  | variableRef => "variable_ref"
  | valueRef => "value_ref"
  | resourceRef => "resource_ref"
  | dataSourceRef => "data_source_ref"
  | childRef => "child_ref"
  | elemRef => "elem_ref"
  | elemIndexRef => "elem_index_ref"
  | functionCall => "function_call"
  | functionArg => "function_arg"
  | resourceMetadata => "resource_metadata"
  | linkSelector => "link_selector"
  | dependsOn => "depends_on"
  | condition => "condition"
  | each => "each"
  | dataSourceFilter => "data_source_filter"
  | dataSourceFilterOperator => "data_source_filter_operator"
  | dataSourceFilterSearch => "data_source_filter_search"
  | dataSourceExports => "data_source_exports"
  | dataSourceExport => "data_source_field_export"
  | dataSourceMetadata => "data_source_metadata"
  | stringMap => "string_map"
  | templateMap => "string_or_substitutions_map"
  | content => "mapping_node"
  | scalar => "scalar"

/-- Every kind, the unknown one first. -/
def all : List ElementKind :=
  [unknown, blueprint, version, transform, vars, values, includes, resources, dataSources,
    exports, blueprintMetadata, variableDefinition, valueDefinition, includeDefinition,
    resourceDefinition, dataSourceDefinition, exportDefinition, resourceType, variableType,
    valueType, dataSourceType, exportType, dataSourceFieldType, description, templateText,
    stringLiteral, intLiteral, floatLiteral, boolLiteral, variableRef, valueRef, resourceRef,
    dataSourceRef, childRef, elemRef, elemIndexRef, functionCall, functionArg, resourceMetadata,
    linkSelector, dependsOn, condition, each, dataSourceFilter, dataSourceFilterOperator,
    dataSourceFilterSearch, dataSourceExports, dataSourceExport, dataSourceMetadata, stringMap,
    templateMap, content, scalar]

/-- A name that no kind has. -/
structure UnknownName where
  text : String
deriving DecidableEq, Repr

/-- What is said about a name that no kind has. -/
def UnknownName.message (fault : UnknownName) : String :=
  "unknown schema element kind: " ++ fault.text

/-- The kind of a name. -/
def ofName (text : String) : Except UnknownName ElementKind :=
  match all.find? fun kind => kind.name == text with
  | some kind => .ok kind
  | none => .error ⟨text⟩

/-- The types of named elements. -/
def isTypeField : ElementKind → Bool
  | resourceType | variableType | valueType | dataSourceType | exportType
  | dataSourceFieldType => true
  | _ => false

/-- References to another element of the blueprint. -/
def isReference : ElementKind → Bool
  | variableRef | valueRef | resourceRef | dataSourceRef | childRef | elemRef
  | elemIndexRef => true
  | _ => false

/-- What stands in a substitution, and the texts that hold substitutions. -/
def isSubstitution (kind : ElementKind) : Bool :=
  kind.isReference || match kind with
    | templateText | stringLiteral | intLiteral | floatLiteral | boolLiteral | functionCall
    | functionArg => true
    | _ => false

/-- Elements that an author declares under a name. -/
def isNamed : ElementKind → Bool
  | variableDefinition | valueDefinition | includeDefinition | resourceDefinition
  | dataSourceDefinition | exportDefinition | dataSourceExport => true
  | _ => false

/-- Whether there is something to show when the cursor rests on an element. -/
def supportsHover (kind : ElementKind) : Bool :=
  kind.isNamed || kind.isTypeField || kind.isReference || match kind with
    | functionCall | version | transform | resourceMetadata | linkSelector | dependsOn
    | condition | each | dataSourceFilter | dataSourceFilterOperator | dataSourceFilterSearch
    | dataSourceExports | dataSourceMetadata => true
    | _ => false

end ElementKind

end Blueprint
