/-!
# Kinds of completions

What can be offered at a cursor: the types of elements, the parts of a filter, what a reference
may go on with, and the fields of the mappings that blueprints are made of.
-/

set_option autoImplicit false

namespace Blueprint

/-- What a completion offers. -/
inductive CompletionKind where
  | unknown
  | resourceType
  | dataSourceType
  | variableType
  | valueType
  | exportType
  | dataSourceFieldType
  | dataSourceFilterField
  | dataSourceFilterOperator
  | stringSubOpen
  | stringSubVariableRef
  | stringSubValueRef
  | stringSubValueProperty
  | stringSubResourceRef
  | stringSubResourceProperty
  | stringSubDataSourceRef
  | stringSubDataSourceProperty
  | stringSubChildRef
  | stringSubChildProperty
  | stringSubElemRef
  | stringSubPotentialResourceProperty
  /-- In the middle of a name of a path, where there is nothing to offer yet. -/
  | stringSubPartialPath
  | blueprintTopLevelField
  | resourceDefinitionField
  | resourceSpecField
  | resourceMetadataField
  | dataSourceDefinitionField
  | dataSourceFilterDefinitionField
  | dataSourceExportDefinitionField
  | dataSourceMetadataField
  | variableDefinitionField
  | valueDefinitionField
  | exportDefinitionField
  | includeDefinitionField
deriving DecidableEq, Repr

namespace CompletionKind

/-- The name of a kind. -/
def name : CompletionKind → String
  | unknown => "unknown"
  | resourceType => "resourceType"
  | dataSourceType => "dataSourceType"
  | variableType => "variableType"
  | valueType => "valueType"
  | exportType => "exportType"
  | dataSourceFieldType => "dataSourceFieldType"
  | dataSourceFilterField => "dataSourceFilterField"
  | dataSourceFilterOperator => "dataSourceFilterOperator"
  | stringSubOpen => "stringSubOpen"
  | stringSubVariableRef => "stringSubVariableRef"
  | stringSubValueRef => "stringSubValueRef"
  | stringSubValueProperty => "stringSubValueProperty"
  | stringSubResourceRef => "stringSubResourceRef"
  | stringSubResourceProperty => "stringSubResourceProperty"
  | stringSubDataSourceRef => "stringSubDataSourceRef"
  | stringSubDataSourceProperty => "stringSubDataSourceProperty"
  | stringSubChildRef => "stringSubChildRef"
  | stringSubChildProperty => "stringSubChildProperty"
  | stringSubElemRef => "stringSubElemRef"
  | stringSubPotentialResourceProperty => "stringSubPotentialResourceProperty"
  | stringSubPartialPath => "stringSubPartialPath"
  | blueprintTopLevelField => "blueprintTopLevelField"
  | resourceDefinitionField => "resourceDefinitionField"
  | resourceSpecField => "resourceSpecField"
  | resourceMetadataField => "resourceMetadataField"
  | dataSourceDefinitionField => "dataSourceDefinitionField"
  | dataSourceFilterDefinitionField => "dataSourceFilterDefinitionField"
  | dataSourceExportDefinitionField => "dataSourceExportDefinitionField"
  | dataSourceMetadataField => "dataSourceMetadataField"
  | variableDefinitionField => "variableDefinitionField"
  | valueDefinitionField => "valueDefinitionField"
  | exportDefinitionField => "exportDefinitionField"
  | includeDefinitionField => "includeDefinitionField"

/-- Every kind, the unknown one first. -/
def all : List CompletionKind :=
  [unknown, resourceType, dataSourceType, variableType, valueType, exportType,
    dataSourceFieldType, dataSourceFilterField, dataSourceFilterOperator, stringSubOpen,
    stringSubVariableRef, stringSubValueRef, stringSubValueProperty, stringSubResourceRef,
    stringSubResourceProperty, stringSubDataSourceRef, stringSubDataSourceProperty,
    stringSubChildRef, stringSubChildProperty, stringSubElemRef,
    stringSubPotentialResourceProperty, stringSubPartialPath, blueprintTopLevelField,
    resourceDefinitionField, resourceSpecField, resourceMetadataField,
    dataSourceDefinitionField, dataSourceFilterDefinitionField,
    dataSourceExportDefinitionField, dataSourceMetadataField, variableDefinitionField,
    valueDefinitionField, exportDefinitionField, includeDefinitionField]

/-- The types of elements. -/
def isTypeField : CompletionKind → Bool
  | resourceType | dataSourceType | variableType | valueType | exportType
  | dataSourceFieldType => true
  | _ => false

/-- What belongs into a substitution. -/
def isSubstitution : CompletionKind → Bool
  | stringSubOpen | stringSubVariableRef | stringSubValueRef | stringSubValueProperty
  | stringSubResourceRef | stringSubResourceProperty | stringSubDataSourceRef
  | stringSubDataSourceProperty | stringSubChildRef | stringSubChildProperty | stringSubElemRef
  | stringSubPotentialResourceProperty | stringSubPartialPath => true
  | _ => false

/-- The parts of a data source's filter. -/
def isFilter : CompletionKind → Bool
  | dataSourceFilterField | dataSourceFilterOperator | dataSourceFilterDefinitionField => true
  | _ => false

/-- The fields of a known mapping, the whole blueprint included. -/
def isFieldDefinition : CompletionKind → Bool
  | blueprintTopLevelField | resourceDefinitionField | resourceSpecField | resourceMetadataField
  | dataSourceDefinitionField | dataSourceFilterDefinitionField
  | dataSourceExportDefinitionField | dataSourceMetadataField | variableDefinitionField
  | valueDefinitionField | exportDefinitionField | includeDefinitionField => true
  | _ => false

/-- Whether there is anything to offer. -/
def offers : CompletionKind → Bool
  | unknown | stringSubPartialPath => false
  | _ => true

end CompletionKind

/-- What to offer at a cursor, with the names it is about. -/
structure Completion where
  kind : CompletionKind
  resourceName : Option String := none
  dataSourceName : Option String := none
  /-- The first name of a reference that begins with no namespace. -/
  potentialResourceName : Option String := none
  /-- The part of a key or name that has been typed. -/
  fieldName : Option String := none
deriving DecidableEq, Repr

end Blueprint
