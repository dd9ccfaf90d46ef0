import Blueprint.Completion.Reference
import Blueprint.Cursor.Context
import Blueprint.Path.Shape

/-!
# What to offer at a cursor

Layers are asked in turn, and the first that has an answer wins: an open substitution, the type
of an element, the parts of a data source's filter, the fields of a known mapping, the fields of
the whole blueprint. Where no layer answers there is nothing to offer.
-/

set_option autoImplicit false

namespace Blueprint.Completion

/-- A kind with the names of the resource and the data source that a path leads into. -/
def named (kind : CompletionKind) (path : Path) : Completion :=
  { kind, resourceName := path.nameIn? .resources, dataSourceName := path.nameIn? .dataSources }

/-- The kind of the first test that holds. -/
def firstKind? (tests : List (Bool × CompletionKind)) : Option CompletionKind :=
  (tests.find? Prod.fst).map Prod.snd

/-- The layer of open substitutions. -/
def inSubstitution? (context : Context) : Option Completion :=
  if context.inSubstitution then some (ofReference (Text.substitutionText context.before))
  else none

/-! ## Types and filters -/

/-- The type that a path is the one of. -/
def typeAt? (path : Path) : Option CompletionKind :=
  firstKind?
    [(path.isType .resources, .resourceType),
      (path.isType .dataSources, .dataSourceType),
      (path.isType .vars, .variableType),
      (path.isType .values, .valueType),
      (path.isType .exports, .exportType),
      (path.isDataSourceExportType, .dataSourceFieldType)]

/-- The type that the element at a path has. -/
def typeIn? (path : Path) : Option CompletionKind :=
  firstKind?
    [(path.isDefinition .resources, .resourceType),
      (path.isDefinition .dataSources, .dataSourceType),
      (path.isDefinition .vars, .variableType),
      (path.isDefinition .values, .valueType),
      (path.isDefinition .exports, .exportType),
      (path.isDataSourceExport, .dataSourceFieldType)]

/-- The layer of types: on a type, or right after the key of one that is being added. -/
def typeField? (context : Context) : Option Completion :=
  match typeAt? context.path with
  | some kind => some (named kind context.path)
  | none =>
    if Text.endsWithKey context.before "type" then
      (typeIn? context.path).map fun kind => named kind context.path
    else none

/-- The part of a filter at a path, or right after the key of one that is being added. -/
def filterKind? (path : Path) (before : List Char) : Option CompletionKind :=
  if path.isFilterField "field" then some .dataSourceFilterField
  else if path.isFilterField "operator" then some .dataSourceFilterOperator
  else if path.isFilter && Text.endsWithKey before "field" then some .dataSourceFilterField
  else if path.isFilter && Text.endsWithKey before "operator" then some .dataSourceFilterOperator
  else none

/-- The layer of filters. -/
def filterField? (context : Context) : Option Completion :=
  (filterKind? context.path context.before).map fun kind => named kind context.path

/-! ## Fields -/

/-- What is offered for the keys of the mapping at a path. -/
def fieldKind? (path : Path) : Option CompletionKind :=
  firstKind?
    [(path.isDefinition .resources, .resourceDefinitionField),
      (path.isWithinSpec, .resourceSpecField),
      (path.isResourceMetadata, .resourceMetadataField),
      (path.isDefinition .dataSources, .dataSourceDefinitionField),
      (path.isFilter, .dataSourceFilterDefinitionField),
      (path.isDataSourceExport, .dataSourceExportDefinitionField),
      (path.isDataSourceMetadata, .dataSourceMetadataField),
      (path.isDefinition .vars, .variableDefinitionField),
      (path.isDefinition .values, .valueDefinitionField),
      (path.isDefinition .exports, .exportDefinitionField),
      (path.isDefinition .includes, .includeDefinitionField)]

/-- Whether a key can be typed at a cursor. -/
def atKey (context : Context) : Bool :=
  context.slot == .keyField || context.slot == .emptyContainer

/-- The layer of known mappings. -/
def structuralField? (context : Context) : Option Completion :=
  if atKey context then do
    let container ← context.fieldContainer?
    let path := context.pathOf container
    let kind ← fieldKind? path
    return { named kind path with fieldName := some (String.ofList context.typed) }
  else none

/-- The layer of the whole blueprint. A second word before the cursor means that no key is being
typed but a sentence. -/
def topLevelField? (context : Context) : Option Completion :=
  if context.inSubstitution || context.node.isNone || !atKey context then none
  else if 1 < Text.countWords context.before then none
  else do
    let container ← context.fieldContainer?
    guard (context.pathOf container).isEmpty
    return { kind := .blueprintTopLevelField, fieldName := some (String.ofList context.typed) }

/-- The layers in the order in which they are asked. -/
def layers : List (Context → Option Completion) :=
  [inSubstitution?, typeField?, filterField?, structuralField?, topLevelField?]

/-- What to offer at a cursor. -/
def ofContext (context : Context) : Completion :=
  (layers.findSome? fun layer => layer context).getD { kind := .unknown }

end Blueprint.Completion
