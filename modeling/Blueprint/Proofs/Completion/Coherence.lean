import Blueprint.Completion.Basic
import Blueprint.Proofs.Path.Sections
import Blueprint.Proofs.Text.Search

/-!
# Completions are coherent

What is offered at a cursor comes with names, and each layer fills them in by rules of its own.
Whatever the cursor, the names fit the kind (`Completion.coherent_ofContext`): a resource's name
comes with the kinds about resources only, a data source's with those about data sources, a name
that may be a resource with its own kind and always there, and never two of the three together.
Inside a substitution the kind is one of substitutions, outside it is not. Where a key is being
typed, what has been typed of it is an end of the text before the cursor.

The kinds told by a path each belong to one section, and a path leads into one section at most; so
the two names read off a path never stand side by side (`coherent_named`).
-/

set_option autoImplicit false

namespace Blueprint

/-! ## What has been typed -/

namespace Slot

theorem dropQuote_isSuffix (text : List Char) : dropQuote text <:+ text := by
  cases text with
  | nil => exact List.suffix_rfl
  | cons char rest =>
      rw [dropQuote]
      split
      · exact List.suffix_cons char rest
      · exact List.suffix_rfl

theorem getD_isSuffix {found : Option (List Char)} {otherwise text : List Char}
    (search : ∀ after, found = some after → after <:+ text) (default : otherwise <:+ text) :
    found.getD otherwise <:+ text := by
  cases found with
  | none => exact default
  | some after => exact search after rfl

theorem rawTyped_isSuffix (slot : Slot) (style : Style) (before : List Char) :
    slot.rawTyped style before <:+ before := by
  cases slot with
  | sequenceItem =>
      rw [rawTyped]
      split
      · exact getD_isSuffix (fun _ => Text.afterLastPair?_isSuffix) (List.dropWhile_suffix _)
      · exact getD_isSuffix (fun _ => Text.afterLast?_isSuffix) List.suffix_rfl
  | stringContent =>
      exact getD_isSuffix (fun _ => Text.afterLast?_isSuffix) (List.nil_suffix)
  | keyField => exact Text.takeEndWhile_isSuffix isWordChar before
  | valueField =>
      exact getD_isSuffix (fun _ => Text.afterLast?_isSuffix) (List.nil_suffix)
  | emptyContainer => exact List.nil_suffix
  | unknown => exact List.nil_suffix

/-- What has been typed is an end of the text before the cursor. -/
theorem typed_isSuffix (slot : Slot) (style : Style) (before : List Char) :
    slot.typed style before <:+ before :=
  (dropQuote_isSuffix _).trans
    ((List.dropWhile_suffix _).trans (slot.rawTyped_isSuffix style before))

end Slot

/-! ## Kinds and sections -/

namespace CompletionKind

/-- The section of the elements that a kind is about, for the kinds told by a path. -/
def part? : CompletionKind → Option Section
  | resourceType | resourceDefinitionField | resourceSpecField | resourceMetadataField =>
    some .resources
  | dataSourceType | dataSourceFieldType | dataSourceFilterField | dataSourceFilterOperator
  | dataSourceDefinitionField | dataSourceFilterDefinitionField
  | dataSourceExportDefinitionField | dataSourceMetadataField => some .dataSources
  | variableType | variableDefinitionField => some .vars
  | valueType | valueDefinitionField => some .values
  | exportType | exportDefinitionField => some .exports
  | includeDefinitionField => some .includes
  | _ => none

/-- The kinds that may come with the name of a resource. -/
def namingResource : List CompletionKind :=
  [resourceType, resourceDefinitionField, resourceSpecField, resourceMetadataField,
    stringSubResourceProperty]

/-- The kinds that may come with the name of a data source. -/
def namingDataSource : List CompletionKind :=
  [dataSourceType, dataSourceFieldType, dataSourceFilterField, dataSourceFilterOperator,
    dataSourceDefinitionField, dataSourceFilterDefinitionField, dataSourceExportDefinitionField,
    dataSourceMetadataField, stringSubDataSourceProperty]

variable {kind : CompletionKind}

theorem part?_of_isSubstitution (inside : kind.isSubstitution = true) : kind.part? = none := by
  revert inside
  cases kind <;> decide

theorem mem_namingResource_of_part? (about : kind.part? = some .resources) :
    kind ∈ namingResource := by
  revert about
  cases kind <;> decide

theorem mem_namingDataSource_of_part? (about : kind.part? = some .dataSources) :
    kind ∈ namingDataSource := by
  revert about
  cases kind <;> decide

theorem isFieldDefinition_of_isSubstitution (inside : kind.isSubstitution = true) :
    kind.isFieldDefinition = false := by
  revert inside
  cases kind <;> decide

end CompletionKind

namespace Completion

variable {context : Context} {completion : Completion} {kind : CompletionKind} {path : Path}

/-- The names of a completion fit its kind, and the kind fits the cursor. -/
structure Coherent (context : Context) (completion : Completion) : Prop where
  substitution : completion.kind.isSubstitution = true ↔ context.inSubstitution = true
  potential : completion.potentialResourceName.isSome = true ↔
    completion.kind = .stringSubPotentialResourceProperty
  /-- At most one of the three names is there. -/
  single : [completion.resourceName, completion.dataSourceName,
    completion.potentialResourceName].countP Option.isSome ≤ 1
  resource : completion.resourceName.isSome = true →
    completion.kind ∈ CompletionKind.namingResource
  dataSource : completion.dataSourceName.isSome = true →
    completion.kind ∈ CompletionKind.namingDataSource
  /-- Where a key is being typed, what has been typed of it ends the text before the cursor. -/
  typed : completion.kind.isFieldDefinition = true →
    ∃ name, completion.fieldName = some name ∧ name.toList <:+ context.before

/-- A kind that comes without the name of an element. -/
theorem coherent_nameless (kind : CompletionKind) (fieldName : Option String)
    (fits : kind.isSubstitution = true ↔ context.inSubstitution = true)
    (known : kind ≠ .stringSubPotentialResourceProperty)
    (typed : kind.isFieldDefinition = true →
      ∃ name, fieldName = some name ∧ name.toList <:+ context.before) :
    Coherent context { kind, fieldName } where
  substitution := fits
  potential := iff_of_false Bool.false_ne_true known
  single := Nat.zero_le 1
  resource absent := absurd absent Bool.false_ne_true
  dataSource absent := absurd absent Bool.false_ne_true
  typed := typed

/-! ## Inside a substitution -/

/-- A kind of substitutions, with no name or with the part of one that has been typed. -/
theorem coherent_bare (kind : CompletionKind) (inside : context.inSubstitution = true)
    (belongs : kind.isSubstitution = true) (known : kind ≠ .stringSubPotentialResourceProperty)
    (fieldName : Option String) : Coherent context { kind, fieldName } := by
  refine coherent_nameless kind fieldName (iff_of_true belongs inside) known fun field => ?_
  rw [CompletionKind.isFieldDefinition_of_isSubstitution belongs] at field
  cases field

/-- The name after a namespace goes with the kinds that it is a name for. -/
theorem coherent_withName (inside : context.inSubstitution = true)
    (belongs : kind.isSubstitution = true) (known : kind ≠ .stringSubPotentialResourceProperty)
    (name : Option String) : Coherent context (withName kind name) := by
  unfold withName
  split
  case h_1 =>
    exact {
      substitution := iff_of_true rfl inside
      potential := iff_of_false Bool.false_ne_true known
      single := by cases name <;> simp
      resource := fun _ => by simp [CompletionKind.namingResource]
      dataSource absent := absurd absent Bool.false_ne_true
      typed field := absurd field Bool.false_ne_true }
  case h_2 =>
    exact {
      substitution := iff_of_true rfl inside
      potential := iff_of_false Bool.false_ne_true known
      single := by cases name <;> simp
      resource absent := absurd absent Bool.false_ne_true
      dataSource := fun _ => by simp [CompletionKind.namingDataSource]
      typed field := absurd field Bool.false_ne_true }
  all_goals exact coherent_bare _ inside belongs known _

theorem kindIn_mem (space : Namespace) (count : Nat) (trailing : Trailing) :
    kindIn space count trailing ∈
      [space.referenceKind, space.propertyKind, .stringSubOpen, .stringSubPartialPath] := by
  unfold kindIn
  split
  · split <;> simp
  · split
    · simp
    · split <;> simp

theorem isSubstitution_kindIn (space : Namespace) (count : Nat) (trailing : Trailing) :
    (kindIn space count trailing).isSubstitution = true ∧
      kindIn space count trailing ≠ .stringSubPotentialResourceProperty := by
  have listed := kindIn_mem space count trailing
  generalize kindIn space count trailing = kind at listed
  revert listed
  cases space <;> cases kind <;> decide

theorem coherent_ofFreeName (inside : context.inSubstitution = true) (first : String)
    (expression : Expression) : Coherent context (ofFreeName first expression) := by
  unfold ofFreeName
  split
  · exact {
      substitution := iff_of_true rfl inside
      potential := iff_of_true rfl rfl
      single := Nat.le_refl 1
      resource absent := absurd absent Bool.false_ne_true
      dataSource absent := absurd absent Bool.false_ne_true
      typed field := absurd field Bool.false_ne_true }
  · split
    · exact coherent_bare .stringSubOpen inside rfl (by decide) none
    · exact coherent_bare .stringSubPartialPath inside rfl (by decide) none

theorem coherent_ofReference (inside : context.inSubstitution = true) (text : List Char) :
    Coherent context (ofReference text) := by
  unfold ofReference ofExpression
  split
  · exact coherent_bare .stringSubOpen inside rfl (by decide) none
  · split
    · exact coherent_ofFreeName inside _ _
    · rename_i space _
      obtain ⟨belongs, known⟩ := isSubstitution_kindIn space _ _
      exact coherent_withName inside belongs known _

/-! ## Outside of substitutions -/

/-- A kind is about elements of the section that a path leads into. -/
def Placed (path : Path) (kind : CompletionKind) : Prop :=
  ∃ part, kind.part? = some part ∧ path.LeadsInto part

/-- The names read off a path fit a kind that is about the path's section. -/
theorem coherent_named (outside : context.inSubstitution = false) (placed : Placed path kind)
    (fieldName : Option String) (typed : kind.isFieldDefinition = true →
      ∃ name, fieldName = some name ∧ name.toList <:+ context.before) :
    Coherent context { named kind path with fieldName } := by
  obtain ⟨part, about, into⟩ := placed
  have apart : kind.isSubstitution = false := by
    rw [Bool.eq_false_iff]
    intro inside
    rw [CompletionKind.part?_of_isSubstitution inside] at about
    cases about
  have aboutOf : ∀ {other : Section}, (path.nameIn? other).isSome = true →
      kind.part? = some other := by
    intro other present
    obtain ⟨name, named⟩ := Option.isSome_iff_exists.mp present
    rw [about, into.unique (Path.leadsInto_of_nameIn? named)]
  refine ⟨by simp [named, apart, outside], ?_, ?_, ?_, ?_, typed⟩
  · constructor
    · intro absent
      cases absent
    · rintro rfl
      cases about
  · show [path.nameIn? .resources, path.nameIn? .dataSources, none].countP Option.isSome ≤ 1
    cases resource : path.nameIn? .resources with
    | none => cases path.nameIn? .dataSources <;> simp
    | some name =>
        cases dataSource : path.nameIn? .dataSources with
        | none => simp
        | some other =>
            have same := (aboutOf (Option.isSome_of_eq_some resource)).symm.trans
              (aboutOf (Option.isSome_of_eq_some dataSource))
            cases same
  · intro resource
    exact CompletionKind.mem_namingResource_of_part? (aboutOf resource)
  · intro dataSource
    exact CompletionKind.mem_namingDataSource_of_part? (aboutOf dataSource)

/-- The path leads into the section that the kind is about, and no key is being typed. -/
def PlacedKeyless (path : Path) (kind : CompletionKind) : Prop :=
  Placed path kind ∧ kind.isFieldDefinition = false

/-- What holds of every kind whose test does holds of the kind that is found. -/
theorem holds_of_firstKind? (holds : CompletionKind → Prop) {tests : List (Bool × CompletionKind)}
    (each : ∀ test ∈ tests, test.1 = true → holds test.2)
    (found : firstKind? tests = some kind) : holds kind := by
  obtain ⟨test, here, rfl⟩ := Option.map_eq_some_iff.mp found
  exact each test (List.mem_of_find?_eq_some here) (List.find?_some here)

theorem placed_of_typeAt? (found : typeAt? path = some kind) : PlacedKeyless path kind := by
  refine holds_of_firstKind? (PlacedKeyless path) ?_ found
  simp only [List.forall_mem_cons]
  exact ⟨fun shape => ⟨⟨.resources, rfl, Path.leadsInto_of_isDefinitionField shape⟩, rfl⟩,
    fun shape => ⟨⟨.dataSources, rfl, Path.leadsInto_of_isDefinitionField shape⟩, rfl⟩,
    fun shape => ⟨⟨.vars, rfl, Path.leadsInto_of_isDefinitionField shape⟩, rfl⟩,
    fun shape => ⟨⟨.values, rfl, Path.leadsInto_of_isDefinitionField shape⟩, rfl⟩,
    fun shape => ⟨⟨.exports, rfl, Path.leadsInto_of_isDefinitionField shape⟩, rfl⟩,
    fun shape => ⟨⟨.dataSources, rfl, Path.leadsInto_of_isDataSourceExportType shape⟩, rfl⟩,
    List.forall_mem_nil _⟩

theorem placed_of_typeIn? (found : typeIn? path = some kind) : PlacedKeyless path kind := by
  refine holds_of_firstKind? (PlacedKeyless path) ?_ found
  simp only [List.forall_mem_cons]
  exact ⟨fun shape => ⟨⟨.resources, rfl, Path.leadsInto_of_isDefinition shape⟩, rfl⟩,
    fun shape => ⟨⟨.dataSources, rfl, Path.leadsInto_of_isDefinition shape⟩, rfl⟩,
    fun shape => ⟨⟨.vars, rfl, Path.leadsInto_of_isDefinition shape⟩, rfl⟩,
    fun shape => ⟨⟨.values, rfl, Path.leadsInto_of_isDefinition shape⟩, rfl⟩,
    fun shape => ⟨⟨.exports, rfl, Path.leadsInto_of_isDefinition shape⟩, rfl⟩,
    fun shape => ⟨⟨.dataSources, rfl, Path.leadsInto_of_isDataSourceExport shape⟩, rfl⟩,
    List.forall_mem_nil _⟩

theorem filterKind?_eq (path : Path) (before : List Char) : filterKind? path before = firstKind?
    [(path.isFilterField "field", .dataSourceFilterField),
      (path.isFilterField "operator", .dataSourceFilterOperator),
      (path.isFilter && Text.endsWithKey before "field", .dataSourceFilterField),
      (path.isFilter && Text.endsWithKey before "operator", .dataSourceFilterOperator)] := by
  unfold filterKind? firstKind?
  cases path.isFilterField "field" <;> cases path.isFilterField "operator" <;>
    cases path.isFilter && Text.endsWithKey before "field" <;>
    cases path.isFilter && Text.endsWithKey before "operator" <;> rfl

theorem placed_of_filterKind? {before : List Char} (found : filterKind? path before = some kind) :
    PlacedKeyless path kind := by
  rw [filterKind?_eq] at found
  refine holds_of_firstKind? (PlacedKeyless path) ?_ found
  have inFilter {key : Bool} (both : (path.isFilter && key) = true) :
      path.LeadsInto .dataSources := Path.leadsInto_of_isFilter (Bool.and_eq_true_iff.mp both).1
  simp only [List.forall_mem_cons]
  exact ⟨fun shape => ⟨⟨.dataSources, rfl, Path.leadsInto_of_isFilterField shape⟩, rfl⟩,
    fun shape => ⟨⟨.dataSources, rfl, Path.leadsInto_of_isFilterField shape⟩, rfl⟩,
    fun shape => ⟨⟨.dataSources, rfl, inFilter shape⟩, rfl⟩,
    fun shape => ⟨⟨.dataSources, rfl, inFilter shape⟩, rfl⟩, List.forall_mem_nil _⟩

theorem placed_of_fieldKind? (found : fieldKind? path = some kind) : Placed path kind := by
  refine holds_of_firstKind? (Placed path) ?_ found
  simp only [List.forall_mem_cons]
  exact ⟨fun shape => ⟨.resources, rfl, Path.leadsInto_of_isDefinition shape⟩,
    fun shape => ⟨.resources, rfl, Path.leadsInto_of_isWithinField shape⟩,
    fun shape => ⟨.resources, rfl, Path.leadsInto_of_isDefinitionField shape⟩,
    fun shape => ⟨.dataSources, rfl, Path.leadsInto_of_isDefinition shape⟩,
    fun shape => ⟨.dataSources, rfl, Path.leadsInto_of_isFilter shape⟩,
    fun shape => ⟨.dataSources, rfl, Path.leadsInto_of_isDataSourceExport shape⟩,
    fun shape => ⟨.dataSources, rfl, Path.leadsInto_of_isDefinitionField shape⟩,
    fun shape => ⟨.vars, rfl, Path.leadsInto_of_isDefinition shape⟩,
    fun shape => ⟨.values, rfl, Path.leadsInto_of_isDefinition shape⟩,
    fun shape => ⟨.exports, rfl, Path.leadsInto_of_isDefinition shape⟩,
    fun shape => ⟨.includes, rfl, Path.leadsInto_of_isDefinition shape⟩,
    List.forall_mem_nil _⟩

/-! ## Layer by layer -/

theorem coherent_of_placed (outside : context.inSubstitution = false)
    (placed : PlacedKeyless path kind) :
    Coherent context (named kind path) := by
  refine coherent_named outside placed.1 none fun field => ?_
  rw [placed.2] at field
  cases field

theorem coherent_of_typeField? (outside : context.inSubstitution = false)
    (answered : typeField? context = some completion) : Coherent context completion := by
  unfold typeField? at answered
  split at answered
  · rename_i kind found
    obtain rfl := Option.some.inj answered
    exact coherent_of_placed outside (placed_of_typeAt? found)
  · split at answered
    · obtain ⟨kind, found, rfl⟩ := Option.map_eq_some_iff.mp answered
      exact coherent_of_placed outside (placed_of_typeIn? found)
    · cases answered

theorem coherent_of_filterField? (outside : context.inSubstitution = false)
    (answered : filterField? context = some completion) : Coherent context completion := by
  obtain ⟨kind, found, rfl⟩ := Option.map_eq_some_iff.mp answered
  exact coherent_of_placed outside (placed_of_filterKind? found)

/-- What has been typed of a key, as a name. -/
theorem exists_typed (context : Context) :
    ∃ name, some (String.ofList context.typed) = some name ∧ name.toList <:+ context.before := by
  refine ⟨_, rfl, ?_⟩
  rw [String.toList_ofList]
  exact context.slot.typed_isSuffix context.style context.before

theorem coherent_of_structuralField? (outside : context.inSubstitution = false)
    (answered : structuralField? context = some completion) : Coherent context completion := by
  unfold structuralField? at answered
  split at answered
  · obtain ⟨container, _, looked⟩ := Option.bind_eq_some_iff.mp answered
    obtain ⟨kind, found, finished⟩ := Option.bind_eq_some_iff.mp looked
    obtain rfl := Option.some.inj finished
    exact coherent_named outside (placed_of_fieldKind? found) _ fun _ => exists_typed context
  · cases answered

theorem coherent_of_topLevelField? (outside : context.inSubstitution = false)
    (answered : topLevelField? context = some completion) : Coherent context completion := by
  rw [topLevelField?] at answered
  obtain ⟨_, atKey⟩ := Option.ite_none_left_eq_some.mp answered
  obtain ⟨_, oneWord⟩ := Option.ite_none_left_eq_some.mp atKey
  obtain ⟨container, _, guarded⟩ := Option.bind_eq_some_iff.mp oneWord
  obtain ⟨_, _, finished⟩ := Option.bind_eq_some_iff.mp guarded
  obtain rfl := Option.some.inj finished
  exact coherent_nameless _ _ (iff_of_false Bool.false_ne_true (by simp [outside])) (by decide)
    fun _ => exists_typed context

theorem coherent_unknown (outside : context.inSubstitution = false) :
    Coherent context { kind := .unknown } :=
  coherent_nameless _ _ (iff_of_false Bool.false_ne_true (by simp [outside])) (by decide)
    fun field => absurd field Bool.false_ne_true

/-- In a substitution, what has been typed of it decides. -/
theorem ofContext_of_inSubstitution (inside : context.inSubstitution = true) :
    ofContext context = ofReference (Text.substitutionText context.before) := by
  rw [ofContext, layers, List.findSome?_cons, inSubstitution?, if_pos inside]
  rfl

/-- **What is offered is coherent**, whatever is known about the cursor. -/
theorem coherent_ofContext (context : Context) : Coherent context (ofContext context) := by
  cases inside : context.inSubstitution with
  | true =>
      rw [ofContext_of_inSubstitution inside]
      exact coherent_ofReference inside _
  | false =>
      rw [ofContext]
      cases asked : layers.findSome? fun layer => layer context with
      | none => exact coherent_unknown inside
      | some completion =>
          obtain ⟨layer, listed, answered⟩ := List.exists_of_findSome?_eq_some asked
          simp only [layers, List.mem_cons, List.not_mem_nil, or_false] at listed
          -- Outside of substitutions the first layer has no answer.
          rcases listed with rfl | rfl | rfl | rfl | rfl
          · rw [inSubstitution?, inside] at answered
            cases answered
          · exact coherent_of_typeField? inside answered
          · exact coherent_of_filterField? inside answered
          · exact coherent_of_structuralField? inside answered
          · exact coherent_of_topLevelField? inside answered

end Completion

end Blueprint
