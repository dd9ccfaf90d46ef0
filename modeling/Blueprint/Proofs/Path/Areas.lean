import Blueprint.Proofs.Path.Sections

/-!
# Areas of a blueprint

The shapes of paths mix exact lengths, least lengths, names at fixed places and the shape of a
parent. What keeps them apart is less than that: the section, the field that is the third segment,
and the number of segments where a shape fixes it. An `Area` gathers these three, and every shape
lies in an area of its own (`has_of_isDefinition` and the others). Whether two areas are apart can
be computed, and no path is in both of two that are (`Area.Has.not_of_apart`).
-/

set_option autoImplicit false

namespace Blueprint.Path

/-- A part of a blueprint, as far as a path tells. -/
structure Area where
  part : Section
  /-- What may be the third segment of a path: a field, or none where there is no field. -/
  third : List (Option String)
  /-- The number of segments, if it is fixed. -/
  size : Option Nat

namespace Area

/-- A path leads to an area. -/
structure Has (area : Area) (path : Path) : Prop where
  into : path.LeadsInto area.part
  third : path.fieldAt? 2 ∈ area.third
  size : ∀ size ∈ area.size, path.length = size

/-- Whether two areas differ in their sections, or have no third segment in common, or fix different
numbers of segments. -/
def apart (left right : Area) : Bool :=
  left.part != right.part || left.third.all (fun name => !right.third.contains name) ||
    left.size.any fun size => right.size.any fun other => size != other

variable {left right : Area} {path : Path}

/-- No path leads to both of two areas that are apart. -/
theorem Has.not_of_apart (has : left.Has path) (distinct : left.apart right = true) :
    ¬right.Has path := by
  intro hasToo
  simp only [apart, Bool.or_eq_true, bne_iff_ne, ne_eq, List.all_eq_true, Option.any_eq_true,
    Bool.not_eq_true', List.contains_eq_mem, decide_eq_false_iff_not] at distinct
  rcases distinct with (sections | thirds) | ⟨size, fixed, other, fixedToo, sizes⟩
  · exact sections (has.into.unique hasToo.into)
  · exact thirds _ has.third hasToo.third
  · exact sizes ((has.size size fixed).symm.trans (hasToo.size other fixedToo))

/-- The elements of a section. -/
def definition (part : Section) : Area := ⟨part, [none], some 2⟩

/-- A field of the elements of a section. -/
def definitionField (part : Section) (name : String) : Area := ⟨part, [some name], some 3⟩

/-- A field of the elements of a section, and all below it. -/
def withinField (part : Section) (name : String) : Area := ⟨part, [some name], none⟩

/-- The filters of data sources, and all below them. -/
def filters : Area := ⟨.dataSources, [some "filter", some "filters"], none⟩

/-- What a data source exports. -/
def dataSourceExport : Area := ⟨.dataSources, [some "exports"], some 4⟩

/-- What stands right below an export of a data source. -/
def belowDataSourceExport : Area := ⟨.dataSources, [some "exports"], some 5⟩

end Area

/-! ## The areas of shapes -/

variable {path : Path} {part : Section} {name : String}

theorem has_of_isDefinition (shape : isDefinition part path = true) :
    (Area.definition part).Has path := by
  unfold isDefinition at shape
  split at shape
  · exact ⟨leadsInto_of_beq shape, List.mem_singleton.mpr rfl, fun _ fixed => Option.some.inj fixed⟩
  · cases shape

theorem has_of_isDefinitionField (shape : isDefinitionField part name path = true) :
    (Area.definitionField part name).Has path := by
  unfold isDefinitionField at shape
  split at shape
  · obtain ⟨top, field⟩ := Bool.and_eq_true_iff.mp shape
    rw [beq_iff_eq.mp field]
    exact ⟨leadsInto_of_beq top, List.mem_singleton.mpr rfl, fun _ fixed => Option.some.inj fixed⟩
  · cases shape

theorem has_of_isWithinField (shape : isWithinField part name path = true) :
    (Area.withinField part name).Has path := by
  unfold isWithinField at shape
  split at shape
  · obtain ⟨top, field⟩ := Bool.and_eq_true_iff.mp shape
    rw [beq_iff_eq.mp field]
    exact ⟨leadsInto_of_beq top, List.mem_singleton.mpr rfl, fun _ fixed => by cases fixed⟩
  · cases shape

theorem has_of_isDataSourceExport (shape : isDataSourceExport path = true) :
    Area.dataSourceExport.Has path := by
  unfold isDataSourceExport at shape
  split at shape
  · obtain ⟨top, field⟩ := Bool.and_eq_true_iff.mp shape
    rw [beq_iff_eq.mp field]
    exact ⟨leadsInto_of_beq top, List.mem_singleton.mpr rfl, fun _ fixed => Option.some.inj fixed⟩
  · cases shape

theorem has_of_isDataSourceExportType (shape : isDataSourceExportType path = true) :
    Area.belowDataSourceExport.Has path := by
  unfold isDataSourceExportType at shape
  split at shape
  · obtain ⟨outer, -⟩ := Bool.and_eq_true_iff.mp shape
    obtain ⟨top, field⟩ := Bool.and_eq_true_iff.mp outer
    rw [beq_iff_eq.mp field]
    exact ⟨leadsInto_of_beq top, List.mem_singleton.mpr rfl, fun _ fixed => Option.some.inj fixed⟩
  · cases shape

theorem has_of_isFilter (shape : isFilter path = true) : Area.filters.Has path := by
  refine ⟨leadsInto_of_isFilter shape, ?_, fun _ fixed => by cases fixed⟩
  unfold isFilter at shape
  split at shape
  · simp_all [Area.filters, fieldAt?, Segment.fieldName?]
  · simp_all [Area.filters, fieldAt?, Segment.fieldName?]
  · simp_all [Area.filters, fieldAt?, Segment.fieldName?]
  · cases shape

/-- A field at a place of a path is at this place of every longer path. -/
theorem fieldAt?_of_isPrefix {outer : Path} {place : Nat} (shorter : outer <+: path)
    (found : outer.fieldAt? place = some name) : path.fieldAt? place = some name := by
  obtain ⟨rest, rfl⟩ := shorter
  obtain ⟨segment, here, isField⟩ := Option.bind_eq_some_iff.mp found
  rw [fieldAt?, List.getElem?_append_left (List.getElem?_eq_some_iff.mp here).1, here]
  exact isField

/-- A field of a filter is in the area of the filter. -/
theorem has_of_isFilterField (shape : isFilterField name path = true) : Area.filters.Has path := by
  refine ⟨leadsInto_of_isFilterField shape, ?_, fun _ fixed => by cases fixed⟩
  have third := (has_of_isFilter (Bool.and_eq_true_iff.mp shape).2).third
  simp only [Area.filters, List.mem_cons, List.not_mem_nil, or_false] at third ⊢
  exact third.imp (fieldAt?_of_isPrefix (List.dropLast_prefix path))
    (fieldAt?_of_isPrefix (List.dropLast_prefix path))

end Blueprint.Path
