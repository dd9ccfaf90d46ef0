import Blueprint.Path.Basic

/-!
# Shapes of paths

Which part of a blueprint a path leads to, read off its length and the field names at fixed
places. The names of sections, their elements' fields and a data source's filters are all that
matters; the document is never looked at.
-/

set_option autoImplicit false

namespace Blueprint

/-- A top-level section that holds named elements. -/
inductive Section where
  | resources
  | vars
  | values
  | includes
  | dataSources
  | exports
deriving DecidableEq, Repr

/-- The field under which a section stands. -/
def Section.fieldName : Section → String
  | resources => "resources"
  | vars => "variables"
  | values => "values"
  | includes => "include"
  | dataSources => "datasources"
  | exports => "exports"

namespace Path

/-! ## Sections and the elements in them -/

/-- Whether a path is the one of a section. -/
def isSection (part : Section) : Path → Bool
  | [.field top] => top == part.fieldName
  | _ => false

/-- Whether a path is the one of an element of a section. -/
def isDefinition (part : Section) : Path → Bool
  | [.field top, _] => top == part.fieldName
  | _ => false

/-- Whether a path is the one of a certain field of an element. -/
def isDefinitionField (part : Section) (name : String) : Path → Bool
  | [.field top, _, .field field] => top == part.fieldName && field == name
  | _ => false

/-- Whether a path leads to a certain field of an element, or further down. -/
def isWithinField (part : Section) (name : String) : Path → Bool
  | .field top :: _ :: .field field :: _ => top == part.fieldName && field == name
  | _ => false

/-- Whether a path leads to the metadata of the whole blueprint, or further down. -/
def isBlueprintMetadata : Path → Bool
  | .field top :: _ => top == "metadata"
  | _ => false

/-- The name of the element of a section that a path leads into. -/
def nameIn? (part : Section) : Path → Option String
  | .field top :: .field name :: _ => if top == part.fieldName then some name else none
  | _ => none

/-! ## Type fields -/

/-- Whether a path is the one of an element's type. -/
def isType (part : Section) : Path → Bool := isDefinitionField part "type"

/-- Whether a path is the one of the field that an export reads. -/
def isExportField : Path → Bool := isDefinitionField .exports "field"

/-! ## Resources -/

/-- Whether a path leads into a resource's specification. -/
def isWithinSpec : Path → Bool := isWithinField .resources "spec"

/-- Whether a path leads into a resource's metadata. -/
def isWithinResourceMetadata : Path → Bool := isWithinField .resources "metadata"

/-- Whether a path is the one of a resource's metadata. -/
def isResourceMetadata : Path → Bool := isDefinitionField .resources "metadata"

/-- Whether a path leads to a certain field of a resource's metadata, or further down. -/
def isWithinResourceMetadataField (name : String) : Path → Bool
  | .field top :: element :: .field field :: .field inner :: _ =>
    isResourceMetadata [.field top, element, .field field] && inner == name
  | _ => false

/-- Whether a path leads into the labels of a resource. -/
def isWithinLabels : Path → Bool := isWithinResourceMetadataField "labels"

/-- Whether a path leads into the annotations of a resource. -/
def isWithinAnnotations : Path → Bool := isWithinResourceMetadataField "annotations"

/-- Whether a path leads into the link selector of a resource. -/
def isWithinLinkSelector : Path → Bool := isWithinField .resources "linkSelector"

/-- Whether a path leads into the dependencies of a resource. -/
def isWithinDependsOn : Path → Bool := isWithinField .resources "dependsOn"

/-- Whether a path leads into the condition of a resource. -/
def isWithinCondition : Path → Bool := isWithinField .resources "condition"

/-- The segments below a resource's specification, which are none at the specification itself. -/
def specPath? (path : Path) : Option Path := if isWithinSpec path then some (path.drop 3) else none

/-! ## Data sources -/

/-- Whether a path is the one of a single filter. A data source may have one filter, a list of
them under either name, or a list whose items each hold one. -/
def isFilter : Path → Bool
  | [.field top, _, .field field] => top == "datasources" && field == "filter"
  | [.field top, _, .field field, .index _] =>
    top == "datasources" && (field == "filter" || field == "filters")
  | [.field top, _, .field field, .index _, .field inner] =>
    top == "datasources" && field == "filters" && inner == "filter"
  | _ => false

/-- Whether a path is the one of a certain field of a filter. -/
def isFilterField (name : String) (path : Path) : Bool :=
  path.getLast? == some (.field name) && isFilter path.dropLast

/-- Whether a path is the one of a data source's exports. -/
def isDataSourceExports : Path → Bool := isDefinitionField .dataSources "exports"

/-- Whether a path is the one of a field that a data source exports. -/
def isDataSourceExport : Path → Bool
  | [.field top, _, .field field, _] => top == "datasources" && field == "exports"
  | _ => false

/-- Whether a path is the one of the type of a field that a data source exports. -/
def isDataSourceExportType : Path → Bool
  | [.field top, _, .field field, _, .field inner] =>
    top == "datasources" && field == "exports" && inner == "type"
  | _ => false

/-- The name of the exported field of a data source that a path leads into. -/
def dataSourceExportName? : Path → Option String
  | .field top :: _ :: .field field :: .field name :: _ =>
    if top == "datasources" && field == "exports" then some name else none
  | _ => none

/-- Whether a path leads into the metadata of a data source. -/
def isWithinDataSourceMetadata : Path → Bool := isWithinField .dataSources "metadata"

/-- Whether a path is the one of a data source's metadata. -/
def isDataSourceMetadata : Path → Bool := isDefinitionField .dataSources "metadata"

end Path

end Blueprint
