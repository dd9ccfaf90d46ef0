import Blueprint.Proofs.Completion.Coherence
import Blueprint.Proofs.Path.Areas
import Mathlib.Data.List.Forall2
import Mathlib.Data.List.Perm.Basic

/-!
# The order of tests

What is offered at a cursor goes by the first test that holds: whether its path is the one of a
type, of an element whose type is being added, of a mapping with known fields. The order of these
tests does not matter, for two of them never hold of one path. Each test keeps to an area of the
blueprint, and the areas of different tests are apart (`Located`, `Located.atMostOne`).

`Completion.ask` asks any layers in turn, and `layersBy` has the layers with the tests of types and
of mappings in any order. With the tests in any order, and with the layer of filters before or after
the one of types, the same is offered (`Completion.unchanged_by_order`).
-/

set_option autoImplicit false

namespace Blueprint.Completion

/-! ## Tests -/

/-- A test, with the kind that is offered where it holds. -/
abbrev Test (Subject : Type) := (Subject → Bool) × CompletionKind

variable {Subject : Type}

/-- The kind of the first test that holds of a subject. -/
def firstOf (tests : List (Test Subject)) (subject : Subject) : Option CompletionKind :=
  firstKind? (tests.map fun test => (test.1 subject, test.2))

/-- At most one of the tests holds of a subject. -/
def AtMostOne (tests : List (Test Subject)) (subject : Subject) : Prop :=
  (tests.countP fun test => test.1 subject) ≤ 1

theorem firstOf_eq (tests : List (Test Subject)) (subject : Subject) :
    firstOf tests subject = (tests.filter fun test => test.1 subject).head?.map Prod.snd := by
  rw [firstOf, firstKind?, List.find?_map, Option.map_map, List.head?_filter]
  rfl

/-- Where at most one test holds, the order of the tests does not matter. -/
theorem firstOf_of_perm {tests others : List (Test Subject)} (reordered : others.Perm tests)
    {subject : Subject} (single : AtMostOne tests subject) :
    firstOf others subject = firstOf tests subject := by
  have same : (others.filter fun test => test.1 subject).Perm
      (tests.filter fun test => test.1 subject) := reordered.filter _
  rw [AtMostOne, List.countP_eq_length_filter] at single
  rw [firstOf_eq, firstOf_eq]
  match holding : tests.filter fun test => test.1 subject with
  | [] =>
      rw [holding] at same
      rw [same.eq_nil, holding]
  | [test] =>
      rw [holding] at same
      rw [List.perm_singleton.mp same, holding]
  | first :: second :: rest =>
      rw [holding] at single
      simp at single

/-- Each test holds in its own area only. -/
def Located (place : Subject → Path) (tests : List (Test Subject)) (areas : List Path.Area) : Prop :=
  List.Forall₂ (fun test area => ∀ subject, test.1 subject = true → area.Has (place subject))
    tests areas

variable {place : Subject → Path} {tests : List (Test Subject)} {areas : List Path.Area}

theorem Located.exists_has (located : Located place tests areas) {test : Test Subject}
    (listed : test ∈ tests) {subject : Subject} (holds : test.1 subject = true) :
    ∃ area ∈ areas, area.Has (place subject) := by
  induction located with
  | nil => cases listed
  | @cons first area rest others here _ ih =>
      rcases List.mem_cons.mp listed with rfl | later
      · exact ⟨area, List.mem_cons_self, here subject holds⟩
      · obtain ⟨other, among, has⟩ := ih later
        exact ⟨other, List.mem_cons_of_mem _ among, has⟩

/-- Of tests in areas that are apart at most one holds. -/
theorem Located.atMostOne (located : Located place tests areas)
    (distinct : areas.Pairwise fun left right => left.apart right = true) (subject : Subject) :
    AtMostOne tests subject := by
  induction located with
  | nil => exact Nat.zero_le 1
  | @cons test area rest others here later ih =>
      obtain ⟨fromOthers, amongOthers⟩ := List.pairwise_cons.mp distinct
      have single := ih amongOthers
      rw [AtMostOne, List.countP_cons] at *
      by_cases holds : test.1 subject = true
      · have none_later : rest.countP (fun test => test.1 subject) = 0 := by
          rw [List.countP_eq_zero]
          intro other listed holdsToo
          obtain ⟨otherArea, among, has⟩ := Located.exists_has later listed holdsToo
          exact (here subject holds).not_of_apart (fromOthers otherArea among) has
        simp [none_later, holds]
      · simpa [holds] using single

/-! ## Types and known mappings -/

/-- The tests for the type that a path is the one of. -/
def typeAtTests : List (Test Path) :=
  [(Path.isType .resources, .resourceType),
    (Path.isType .dataSources, .dataSourceType),
    (Path.isType .vars, .variableType),
    (Path.isType .values, .valueType),
    (Path.isType .exports, .exportType),
    (Path.isDataSourceExportType, .dataSourceFieldType)]

/-- The tests for the type that the element at a path has. -/
def typeInTests : List (Test Path) :=
  [(Path.isDefinition .resources, .resourceType),
    (Path.isDefinition .dataSources, .dataSourceType),
    (Path.isDefinition .vars, .variableType),
    (Path.isDefinition .values, .valueType),
    (Path.isDefinition .exports, .exportType),
    (Path.isDataSourceExport, .dataSourceFieldType)]

/-- The tests for the fields of the mapping at a path. -/
def fieldTests : List (Test Path) :=
  [(Path.isDefinition .resources, .resourceDefinitionField),
    (Path.isWithinSpec, .resourceSpecField),
    (Path.isResourceMetadata, .resourceMetadataField),
    (Path.isDefinition .dataSources, .dataSourceDefinitionField),
    (Path.isFilter, .dataSourceFilterDefinitionField),
    (Path.isDataSourceExport, .dataSourceExportDefinitionField),
    (Path.isDataSourceMetadata, .dataSourceMetadataField),
    (Path.isDefinition .vars, .variableDefinitionField),
    (Path.isDefinition .values, .valueDefinitionField),
    (Path.isDefinition .exports, .exportDefinitionField),
    (Path.isDefinition .includes, .includeDefinitionField)]

/-- A test of a path, made at a cursor. -/
def onPath (test : Test Path) : Test Context := (fun context => test.1 context.path, test.2)

/-- A test of a path, made at a cursor right after the key of a type. -/
def afterTypeKey (test : Test Path) : Test Context :=
  (fun context => Text.endsWithKey context.before "type" && test.1 context.path, test.2)

/-- All tests that the layer of types makes. -/
def typeTests : List (Test Context) := typeAtTests.map onPath ++ typeInTests.map afterTypeKey

/-- The areas of the tests on a type. -/
def typeAtAreas : List Path.Area :=
  [.definitionField .resources "type", .definitionField .dataSources "type",
    .definitionField .vars "type", .definitionField .values "type",
    .definitionField .exports "type", .belowDataSourceExport]

/-- The areas of the tests on an element that has a type. -/
def typeInAreas : List Path.Area :=
  [.definition .resources, .definition .dataSources, .definition .vars, .definition .values,
    .definition .exports, .dataSourceExport]

/-- The areas of the tests on known mappings. -/
def fieldAreas : List Path.Area :=
  [.definition .resources, .withinField .resources "spec", .definitionField .resources "metadata",
    .definition .dataSources, .filters, .dataSourceExport, .definitionField .dataSources "metadata",
    .definition .vars, .definition .values, .definition .exports, .definition .includes]

open List.Forall₂ (cons nil)

theorem located_typeAtTests : Located id typeAtTests typeAtAreas :=
  cons (fun _ => Path.has_of_isDefinitionField) <| cons (fun _ => Path.has_of_isDefinitionField) <|
  cons (fun _ => Path.has_of_isDefinitionField) <| cons (fun _ => Path.has_of_isDefinitionField) <|
  cons (fun _ => Path.has_of_isDefinitionField) <|
  cons (fun _ => Path.has_of_isDataSourceExportType) nil

theorem located_typeInTests : Located id typeInTests typeInAreas :=
  cons (fun _ => Path.has_of_isDefinition) <| cons (fun _ => Path.has_of_isDefinition) <|
  cons (fun _ => Path.has_of_isDefinition) <| cons (fun _ => Path.has_of_isDefinition) <|
  cons (fun _ => Path.has_of_isDefinition) <| cons (fun _ => Path.has_of_isDataSourceExport) nil

theorem located_fieldTests : Located id fieldTests fieldAreas :=
  cons (fun _ => Path.has_of_isDefinition) <| cons (fun _ => Path.has_of_isWithinField) <|
  cons (fun _ => Path.has_of_isDefinitionField) <| cons (fun _ => Path.has_of_isDefinition) <|
  cons (fun _ => Path.has_of_isFilter) <| cons (fun _ => Path.has_of_isDataSourceExport) <|
  cons (fun _ => Path.has_of_isDefinitionField) <| cons (fun _ => Path.has_of_isDefinition) <|
  cons (fun _ => Path.has_of_isDefinition) <| cons (fun _ => Path.has_of_isDefinition) <|
  cons (fun _ => Path.has_of_isDefinition) nil

theorem located_typeTests : Located Context.path typeTests (typeAtAreas ++ typeInAreas) := by
  apply List.rel_append
  · rw [List.forall₂_map_left_iff]
    exact located_typeAtTests.imp fun _ _ has (context : Context) => has context.path
  · rw [List.forall₂_map_left_iff]
    exact located_typeInTests.imp fun _ _ has (context : Context) holds =>
      has context.path (Bool.and_eq_true_iff.mp holds).2

theorem atMostOne_typeTests (context : Context) : AtMostOne typeTests context :=
  located_typeTests.atMostOne (by decide) context

theorem atMostOne_fieldTests (path : Path) : AtMostOne fieldTests path :=
  located_fieldTests.atMostOne (by decide) path

/-! ## Layers -/

/-- The layer of types, by tests in a given order. -/
def typeFieldBy (tests : List (Test Context)) (context : Context) : Option Completion :=
  (firstOf tests context).map fun kind => named kind context.path

/-- The layer of known mappings, by tests in a given order. -/
def structuralFieldBy (tests : List (Test Path)) (context : Context) : Option Completion :=
  if atKey context then do
    let container ← context.fieldContainer?
    let path := context.pathOf container
    let kind ← firstOf tests path
    return { named kind path with fieldName := some (String.ofList context.typed) }
  else none

theorem firstOf_append (front back : List (Test Subject)) (subject : Subject) :
    firstOf (front ++ back) subject = (firstOf front subject).or (firstOf back subject) := by
  rw [firstOf_eq, List.filter_append, List.head?_append, Option.map_or, firstOf_eq, firstOf_eq]

theorem firstOf_onPath (tests : List (Test Path)) (context : Context) :
    firstOf (tests.map onPath) context = firstOf tests context.path := by
  rw [firstOf, List.map_map]
  rfl

theorem firstOf_afterTypeKey (tests : List (Test Path)) (context : Context) :
    firstOf (tests.map afterTypeKey) context =
      if Text.endsWithKey context.before "type" then firstOf tests context.path else none := by
  cases key : Text.endsWithKey context.before "type" with
  | true => simp [firstOf, Function.comp_def, afterTypeKey, key]
  | false => simp [firstOf, firstKind?, Function.comp_def, afterTypeKey, key]

/-- The layer of types asks all of its tests in turn. -/
theorem typeField?_eq (context : Context) : typeField? context = typeFieldBy typeTests context := by
  have onType : firstOf typeAtTests context.path = typeAt? context.path := rfl
  have inType : firstOf typeInTests context.path = typeIn? context.path := rfl
  rw [typeFieldBy, typeTests, firstOf_append, firstOf_onPath, firstOf_afterTypeKey, onType, inType,
    typeField?]
  cases typeAt? context.path with
  | some kind => rfl
  | none => cases Text.endsWithKey context.before "type" <;> rfl

theorem structuralField?_eq (context : Context) :
    structuralField? context = structuralFieldBy fieldTests context := rfl

theorem typeFieldBy_of_perm {tests : List (Test Context)} (reordered : tests.Perm typeTests) :
    typeFieldBy tests = typeField? := by
  funext context
  rw [typeField?_eq, typeFieldBy, firstOf_of_perm reordered (atMostOne_typeTests context),
    typeFieldBy]

theorem structuralFieldBy_of_perm {tests : List (Test Path)} (reordered : tests.Perm fieldTests) :
    structuralFieldBy tests = structuralField? := by
  funext context
  have same : firstOf tests = firstOf fieldTests :=
    funext fun path => firstOf_of_perm reordered (atMostOne_fieldTests path)
  rw [structuralField?_eq, structuralFieldBy, same, structuralFieldBy]

/-- A path at which the layer of filters has an answer is in the area of filters. -/
theorem has_of_filterField? {context : Context} {completion : Completion}
    (answered : filterField? context = some completion) : Path.Area.filters.Has context.path := by
  obtain ⟨kind, found, -⟩ := Option.map_eq_some_iff.mp answered
  rw [filterKind?_eq] at found
  refine holds_of_firstKind? (fun _ => Path.Area.filters.Has context.path) ?_ found
  simp only [List.forall_mem_cons]
  exact ⟨Path.has_of_isFilterField, Path.has_of_isFilterField,
    fun shape => Path.has_of_isFilter (Bool.and_eq_true_iff.mp shape).1,
    fun shape => Path.has_of_isFilter (Bool.and_eq_true_iff.mp shape).1, List.forall_mem_nil _⟩

/-- The layers of types and of filters never both have an answer. -/
theorem typeField?_or_filterField?_eq_none (context : Context) :
    typeField? context = none ∨ filterField? context = none := by
  cases typed : typeField? context with
  | none => exact .inl rfl
  | some _ =>
      cases filtered : filterField? context with
      | none => exact .inr rfl
      | some _ =>
          rw [typeField?_eq] at typed
          obtain ⟨kind, found, -⟩ := Option.map_eq_some_iff.mp typed
          rw [firstOf_eq] at found
          obtain ⟨test, first, -⟩ := Option.map_eq_some_iff.mp found
          obtain ⟨listed, holds⟩ := List.mem_filter.mp (List.mem_of_head? first)
          obtain ⟨area, among, has⟩ := located_typeTests.exists_has listed holds
          have apart : ∀ area ∈ typeAtAreas ++ typeInAreas, area.apart .filters = true := by decide
          exact absurd (has_of_filterField? filtered) (has.not_of_apart (apart area among))

/-- What the first of the layers that has an answer offers. -/
def ask (layers : List (Context → Option Completion)) (context : Context) : Completion :=
  (layers.findSome? fun layer => layer context).getD { kind := .unknown }

/-- The layers with the tests of types and of known mappings in given orders. -/
def layersBy (types : List (Test Context)) (fields : List (Test Path)) :
    List (Context → Option Completion) :=
  [inSubstitution?, typeFieldBy types, filterField?, structuralFieldBy fields, topLevelField?]

/-- The same layers with the one of filters before the one of types. -/
def filtersFirstBy (types : List (Test Context)) (fields : List (Test Path)) :
    List (Context → Option Completion) :=
  [inSubstitution?, filterField?, typeFieldBy types, structuralFieldBy fields, topLevelField?]

/-- Of two layers that never both have an answer either may be asked first. -/
theorem ask_swap {left right : Context → Option Completion} {context : Context}
    (exclusive : left context = none ∨ right context = none)
    (front back : List (Context → Option Completion)) :
    ask (front ++ left :: right :: back) context = ask (front ++ right :: left :: back) context := by
  have same : ((left :: right :: back).findSome? fun layer => layer context) =
      (right :: left :: back).findSome? fun layer => layer context := by
    simp only [List.findSome?_cons]
    rcases exclusive with silent | silent
    · rw [silent]
    · rw [silent]
  rw [ask, ask, List.findSome?_append, same, List.findSome?_append]

/-- **The order of the tests does not matter.** Of the tests for types at most one holds of a path,
and so it is with those for the types of elements and those for known mappings. The layers of types
and of filters never both have an answer. So with the tests of each layer in any order, and with
these two layers in either order, the same is offered at every cursor. -/
theorem unchanged_by_order :
    (∀ path, AtMostOne typeAtTests path ∧ AtMostOne typeInTests path ∧ AtMostOne fieldTests path) ∧
      ∀ context,
        (typeField? context = none ∨ filterField? context = none) ∧
        ∀ types fields, types.Perm typeTests → fields.Perm fieldTests →
          ask (layersBy types fields) context = ofContext context ∧
          ask (filtersFirstBy types fields) context = ofContext context := by
  refine ⟨fun path => ⟨located_typeAtTests.atMostOne (by decide) path,
    located_typeInTests.atMostOne (by decide) path, atMostOne_fieldTests path⟩, fun context => ?_⟩
  have exclusive := typeField?_or_filterField?_eq_none context
  refine ⟨exclusive, fun types fields typesReordered fieldsReordered => ?_⟩
  rw [layersBy, filtersFirstBy, typeFieldBy_of_perm typesReordered,
    structuralFieldBy_of_perm fieldsReordered]
  exact ⟨rfl, (ask_swap exclusive [inSubstitution?] _).symm⟩

/-- In the field of a filter, with all tests in reverse. -/
theorem unchanged_by_order_reversed :
    let context : Context := { Context.ofText "field: ".toList ⟨1, 8⟩ .yaml with
      path := .ofFields ["datasources", "network", "filter", "field"] }
    typeTests.reverse.Perm typeTests ∧ fieldTests.reverse.Perm fieldTests ∧
      (ofContext context).kind = .dataSourceFilterField ∧
      ask (filtersFirstBy typeTests.reverse fieldTests.reverse) context = ofContext context := by
  intro context
  have types : typeTests.reverse.Perm typeTests := List.reverse_perm _
  have fields : fieldTests.reverse.Perm fieldTests := List.reverse_perm _
  exact ⟨types, fields, by decide +kernel, ((unchanged_by_order.2 context).2 _ _ types fields).2⟩

end Blueprint.Completion
