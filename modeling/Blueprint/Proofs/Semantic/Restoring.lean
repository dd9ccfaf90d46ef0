import Blueprint.Proofs.Element.Restoring
import Blueprint.Semantic

/-!
# Semantic trees are restored

A semantic tree that is loaded from JSON is loaded again from its written form, and so is each of
its elements (`SemanticTree.restored_from_written`). An element that could not be loaded has become
the unknown element, which is written and loaded as itself.
-/

set_option autoImplicit false

namespace Blueprint

open Json

theorem Position.restores : Restores load write := by
  refine fun json => restoredAt_of_ne_null (by simp [write]) fun loaded => ?_
  have numbers : RestoredBelow nat32? (fun number => .integer number) json := restores_nat32.below
  rw [load, guarded_eq_some_iff] at loaded ⊢
  simp only [Option.bind_eq_bind, Option.bind_eq_some_iff] at loaded ⊢
  obtain ⟨-, line, hasLine, column, hasColumn, same⟩ := loaded
  cases same
  exact ⟨rfl, line, numbers.required hasLine (by simp [write]),
    column, numbers.required hasColumn (by simp [write]), rfl⟩

theorem Span.restores : Restores load write := by
  refine fun json => restoredAt_of_ne_null (by simp [write]) fun loaded => ?_
  have positions : RestoredBelow Position.load Position.write json := Position.restores.below
  rw [load, guarded_eq_some_iff] at loaded ⊢
  simp only [Option.bind_eq_bind, Option.bind_eq_some_iff] at loaded ⊢
  obtain ⟨-, start, hasStart, stop, hasStop, same⟩ := loaded
  cases same
  refine ⟨?_, start, positions.required hasStart (by simp [write]),
    stop, positions.optionalOrEnd hasStop (.inr (by simp [write])), rfl⟩
  cases stop <;> rfl

namespace SemanticTree

theorem load_eq (json : Json) : load json =
    if json.isRecord 5 && json.fieldsUnique fieldNames then do
      let label ← json.required 0 "label" text?
      let path ← json.required 1 "path" text?
      let span ← json.required 2 "range" Span.load
      let children ← json.withDefault 4 "children" (list? load) []
      return node ⟨label, path, span, (json.fieldAt? 3 "element").bind loadElement⟩ children
    else none := by
  rw [load]
  congr 2
  funext label
  congr 1
  funext path
  congr 1
  funext span
  rw [withDefault]
  split
  · rename_i absent
    rw [Option.attach_eq_none_iff.mp absent]
  · rename_i items found _
    rw [found]
    dsimp only [list?]
    congr 1
    exact mapM_attach fun _ => rfl
  · rename_i part other _
    obtain ⟨part, found⟩ := part
    rw [found]
    cases part with
    | array items => exact absurd rfl (other items found)
    | null | bool _ | integer _ | decimal _ | string _ | object _ => rfl

theorem writeAll_eq_map (trees : List SemanticTree) : writeAll trees = trees.map write := by
  induction trees with
  | nil => rfl
  | cons tree rest ih => rw [writeAll, ih, List.map_cons]

theorem loadElement_of_ne_null {json : Json} (solid : json ≠ .null) :
    loadElement json = some ((Element.load json).getD .unknown) := by
  cases json with
  | null => exact absurd rfl solid
  | bool _ | integer _ | decimal _ | string _ | array _ | object _ => rfl

/-- An element of a tree is loaded again, also where it has become the unknown one. -/
theorem loadElement_write {json : Json} {element : Element}
    (loaded : loadElement json = some element) : loadElement element.write = some element := by
  have again : Element.load element.write = some element := by
    unfold loadElement at loaded
    split at loaded
    · cases loaded
    · cases loaded
      cases read : Element.load json with
      | none => rfl
      | some element => exact (Element.restores json).again read
  rw [loadElement_of_ne_null (by simp [Element.write]), again, Option.getD_some]

/-- The members of a written node have different names. -/
theorem fieldsUnique_write (tree : SemanticTree) : tree.write.fieldsUnique fieldNames = true := by
  obtain ⟨entry, children⟩ := tree
  rw [write]
  cases entry.element <;> cases writeAll children <;> rfl

theorem restores : Restores load write := by
  refine .of_step fun json below => restoredAt_of_ne_null (fun tree => ?_) fun {tree} loaded => ?_
  · cases tree
    simp [write]
  · have texts : RestoredBelow text? Json.string json := restores_text.below
    have unique := tree.fieldsUnique_write
    rw [load_eq, Option.ite_none_right_eq_some] at loaded ⊢
    simp only [Option.bind_eq_bind, Option.bind_eq_some_iff] at loaded ⊢
    obtain ⟨-, label, hasLabel, path, hasPath, span, hasSpan, children, hasChildren, same⟩ := loaded
    cases same
    refine ⟨unique, label, texts.required hasLabel (by simp [write]),
      path, texts.required hasPath (by simp [write]),
      span, Span.restores.below.required hasSpan (by simp [write]),
      children, below.lists.withDefault rfl hasChildren
        (found_or_empty (by simp [write, writeAll_eq_map])), ?_⟩
    have element : (write (node ⟨label, path, span, (json.fieldAt? 3 "element").bind loadElement⟩
        children)).fieldAt? 3 "element" =
          ((json.fieldAt? 3 "element").bind loadElement).map Element.write := by
      simp [write]
    rw [element]
    cases loaded : (json.fieldAt? 3 "element").bind loadElement with
    | none => rfl
    | some element =>
        obtain ⟨part, -, loaded⟩ := Option.bind_eq_some_iff.mp loaded
        rw [Option.map_some, Option.bind_some, loadElement_write loaded]
        rfl

/-- **Writing what was loaded and loading it again changes nothing**, be it an element or a tree,
and in whatever form it was loaded first. -/
theorem restored_from_written :
    (∀ json element, Element.load json = some element →
      Element.load element.write = some element) ∧
    ∀ json tree, load json = some tree → load tree.write = some tree :=
  ⟨fun json _ loaded => (Element.restores json).again loaded,
    fun json _ loaded => (restores json).again loaded⟩

/-- A node given as an array, with an element that cannot be loaded. -/
def badTypeForm : Json :=
  .array [.string "type", .string "", .object [("start", .array [.integer 4, .integer 5])],
    .object [("element", .string "resourceType"), ("value", .integer 42)]]

/-- A node with its members out of order and among others, whose element has its tag as an object
and its fields as an array. -/
def mixedForm : Json :=
  .object [("version", .integer 2), ("path", .string "/resources/orders"),
    ("range", .array [.array [.integer 3, .integer 3]]),
    ("element", .object [("value", .array [.string "orders", .null, .string "Orders"]),
      ("note", .string "ignored"), ("element", .object [("resource", .null)])]),
    ("children", .array [badTypeForm]), ("label", .string "orders")]

theorem restored_from_written_mixed :
    let tree := node ⟨"orders", "/resources/orders", ⟨⟨3, 3⟩, none⟩,
        some (.resourceDefinition ⟨"orders", none, some "Orders", []⟩)⟩
      [node ⟨"type", "", ⟨⟨4, 5⟩, none⟩, some .unknown⟩ []]
    load mixedForm = some tree ∧ load tree.write = some tree := by
  intro tree
  have child : load badTypeForm = some (node ⟨"type", "", ⟨⟨4, 5⟩, none⟩, some .unknown⟩ []) := by
    rw [load_eq]
    rfl
  have children : mixedForm.withDefault 4 "children" (list? load) [] =
      some [node ⟨"type", "", ⟨⟨4, 5⟩, none⟩, some .unknown⟩ []] := by
    change [badTypeForm].mapM load = _
    rw [List.mapM_cons, child]
    rfl
  have loaded : load mixedForm = some tree := by
    rw [load_eq, children]
    rfl
  exact ⟨loaded, restored_from_written.2 _ _ loaded⟩

end SemanticTree

end Blueprint
