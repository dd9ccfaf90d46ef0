import Blueprint.Path.Shape

/-!
# Sections and paths

A path leads into a section when it begins with the section's field. Sections have different
fields, so that a path leads into one of them at most (`Path.LeadsInto.unique`).

A path that names an element of a section leads into it, and so does every shape of path that
belongs to an element of the section.
-/

set_option autoImplicit false

namespace Blueprint

theorem Section.fieldName_injective {left right : Section}
    (same : left.fieldName = right.fieldName) : left = right := by
  revert same
  cases left <;> cases right <;> decide

namespace Path

variable {path : Path} {part other : Section} {name : String}

/-- A path begins with the field of a section. -/
def LeadsInto (part : Section) (path : Path) : Prop :=
  path.head? = some (.field part.fieldName)

theorem LeadsInto.unique (into : LeadsInto part path) (alsoInto : LeadsInto other path) :
    part = other := by
  have same := Option.some.inj (into.symm.trans alsoInto)
  exact Section.fieldName_injective (Segment.field.inj same)

theorem leadsInto_of_beq {top : String} {rest : Path} (same : (top == part.fieldName) = true) :
    LeadsInto part (.field top :: rest) := by
  rw [beq_iff_eq.mp same]
  rfl

theorem leadsInto_of_nameIn? (named : nameIn? part path = some name) : LeadsInto part path := by
  unfold nameIn? at named
  split at named
  · split at named
    · rename_i same
      exact leadsInto_of_beq same
    · cases named
  · cases named

theorem leadsInto_of_isDefinition (shape : isDefinition part path = true) :
    LeadsInto part path := by
  unfold isDefinition at shape
  split at shape
  · exact leadsInto_of_beq shape
  · cases shape

theorem leadsInto_of_isDefinitionField (shape : isDefinitionField part name path = true) :
    LeadsInto part path := by
  unfold isDefinitionField at shape
  split at shape
  · exact leadsInto_of_beq (Bool.and_eq_true_iff.mp shape).1
  · cases shape

theorem leadsInto_of_isWithinField (shape : isWithinField part name path = true) :
    LeadsInto part path := by
  unfold isWithinField at shape
  split at shape
  · exact leadsInto_of_beq (Bool.and_eq_true_iff.mp shape).1
  · cases shape

/-! ## Data sources -/

theorem leadsInto_of_isDataSourceExport (shape : isDataSourceExport path = true) :
    LeadsInto .dataSources path := by
  unfold isDataSourceExport at shape
  split at shape
  · exact leadsInto_of_beq (Bool.and_eq_true_iff.mp shape).1
  · cases shape

theorem leadsInto_of_isDataSourceExportType (shape : isDataSourceExportType path = true) :
    LeadsInto .dataSources path := by
  unfold isDataSourceExportType at shape
  split at shape
  · simp only [Bool.and_eq_true] at shape
    exact leadsInto_of_beq shape.1.1
  · cases shape

theorem leadsInto_of_isFilter (shape : isFilter path = true) : LeadsInto .dataSources path := by
  unfold isFilter at shape
  split at shape
  · exact leadsInto_of_beq (Bool.and_eq_true_iff.mp shape).1
  · exact leadsInto_of_beq (Bool.and_eq_true_iff.mp shape).1
  · simp only [Bool.and_eq_true] at shape
    exact leadsInto_of_beq shape.1.1
  · cases shape

/-- A field of a filter is where the filter is. -/
theorem leadsInto_of_isFilterField (shape : isFilterField name path = true) :
    LeadsInto .dataSources path := by
  have filter := leadsInto_of_isFilter (Bool.and_eq_true_iff.mp shape).2
  match path with
  | [] => exact filter
  | [_] => cases filter
  | first :: second :: rest => exact filter

end Path

end Blueprint
