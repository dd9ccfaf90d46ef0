import Blueprint.Element.Substitution

/-!
# Elements of a blueprint

What a validator knows about a place of a blueprint: a section, a named element with its
fields, the type of one, a text with substitutions, and so on. Elements carry as much as is
needed to show names and types and to follow references; they are not a model of the whole
blueprint.
-/

set_option autoImplicit false

namespace Blueprint

/-- A whole blueprint. -/
structure BlueprintInfo where
  version : Option String
  transform : List String
deriving Repr

/-- A variable. -/
structure VariableInfo where
  name : String
  type : Option String
  description : Option String
  isSecret : Bool
  defaultValue : Option Json
  allowedValues : List Json
deriving Repr

/-- A value. -/
structure ValueInfo where
  name : String
  type : Option String
  description : Option String
  isSecret : Bool
deriving Repr

/-- A child blueprint that is taken in. -/
structure IncludeInfo where
  name : String
  path : Option TemplateText
  description : Option String
deriving Repr

/-- A resource. -/
structure ResourceInfo where
  name : String
  type : Option String
  description : Option String
  dependsOn : List String
deriving Repr

/-- A data source. -/
structure DataSourceInfo where
  name : String
  type : Option String
  description : Option String
deriving Repr

/-- An export. -/
structure ExportInfo where
  name : String
  type : Option String
  field : Option String
  description : Option String
deriving Repr

/-- The metadata of a resource. -/
structure ResourceMetadata where
  displayName : Option TemplateText
  labels : List (String × String)
  annotations : List (String × TemplateText)
  custom : Option Content
deriving Repr

/-- How a resource picks the resources it is linked to. -/
structure LinkSelector where
  byLabel : List (String × String)
  exclude : List String
deriving Repr

/-- One filter of a data source. -/
structure DataSourceFilter where
  field : Option String
  operator : Option String
  search : Option TemplateText
deriving Repr

/-- A field that a data source exports. -/
structure DataSourceExport where
  name : String
  type : Option String
  aliasFor : Option String
  description : Option String
deriving Repr

/-- What a validator knows about a place of a blueprint. -/
inductive Element where
  | blueprint (info : BlueprintInfo)
  | version (text : String)
  | transform (names : List String)
  | variableMap
  | valueMap
  | includeMap
  | resourceMap
  | dataSourceMap
  | exportMap
  | blueprintMetadata (content : Content)
  | variableDefinition (info : VariableInfo)
  | valueDefinition (info : ValueInfo)
  | includeDefinition (info : IncludeInfo)
  | resourceDefinition (info : ResourceInfo)
  | dataSourceDefinition (info : DataSourceInfo)
  | exportDefinition (info : ExportInfo)
  | resourceType (name : String)
  | variableType (name : String)
  | valueType (name : String)
  | dataSourceType (name : String)
  | exportType (name : String)
  | dataSourceFieldType (name : String)
  | description (text : TemplateText)
  | templateText (text : TemplateText)
  | substitution (content : Substitution)
  | functionArg (argument : FunctionArg)
  | resourceMetadata (metadata : ResourceMetadata)
  | linkSelector (selector : LinkSelector)
  | dependsOn (names : List String)
  | condition (content : Content)
  | each (text : TemplateText)
  | dataSourceFilter (filter : DataSourceFilter)
  | dataSourceFilterOperator (operator : String)
  | dataSourceFilterSearch (text : TemplateText)
  | dataSourceExports
  | dataSourceExport (info : DataSourceExport)
  | dataSourceMetadata (content : Content)
  | stringMap (entries : List (String × String))
  | templateMap (entries : List (String × TemplateText))
  | content (content : Content)
  /-- An element of a kind that is not known here. -/
  | unknown
deriving Repr

end Blueprint
