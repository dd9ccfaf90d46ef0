import Blueprint.Proofs.Tree.Numbering

/-!
# Documents without a notation

What a document says, whatever it is written in: mappings, sequences and scalars, with nothing of
the brackets, quotes and columns. `Datum.toDocument` is the draft of such a document; it has no
places, since there is no text to have them in.

A draft that does come from a text is compared with it once its places are forgotten
(`Draft.withoutPlaces`). Forgetting places and numbering the nodes can be done in either order
(`Draft.map_withoutPlaces_number`), so that drafts which differ only in their places become trees
which agree node for node.
-/

set_option autoImplicit false

namespace Blueprint

/-! ## Data -/

/-- A scalar: its type and its text. -/
structure Scalar where
  type : ScalarType
  text : String
  /-- A float has a point or an exponent. -/
  marked_of_float : type = .float →
    ∃ char ∈ text.toList, char = '.' ∨ char = 'e' ∨ char = 'E'
  /-- An integer has neither. -/
  unmarked_of_integer : type = .integer →
    ∀ char ∈ text.toList, ¬ (char = '.' ∨ char = 'e' ∨ char = 'E')

/-- A text as a scalar. -/
def Scalar.ofText (text : String) : Scalar where
  type := .string
  text := text
  marked_of_float := fun float => by cases float
  unmarked_of_integer := fun integer => by cases integer

/-- What a document says. -/
inductive Datum where
  | scalar (value : Scalar)
  | sequence (items : List Datum)
  /-- The entries of a mapping in order, with their keys. -/
  | mapping (entries : List (String × Datum))

namespace Datum

mutual
/-- The draft of a datum in a role. -/
def toDraft (role : Role) : Datum → Draft
  | scalar value =>
    .node
      { Entry.ofKind .scalar default with
        value := some value.text, scalarType := some value.type, role } []
  | sequence items => .node { Entry.ofKind .sequence default with role } (itemDrafts 0 items)
  | mapping entries => .node { Entry.ofKind .mapping default with role } (entryDrafts entries)

/-- The drafts of the items of a sequence from the item `number` on. -/
def itemDrafts (number : Nat) : List Datum → List Draft
  | [] => []
  | item :: rest => toDraft (.item number) item :: itemDrafts (number + 1) rest

/-- The drafts of the entries of a mapping. -/
def entryDrafts : List (String × Datum) → List Draft
  | [] => []
  | (key, value) :: rest => toDraft (.field key) value :: entryDrafts rest
end

/-- The draft of the document with a datum. -/
def toDocument (datum : Datum) : Draft :=
  .node (.ofKind .document default) [datum.toDraft .loose]

theorem asItem_toDraft (datum : Datum) (role : Role) (number : Nat) :
    (datum.toDraft role).asItem number = datum.toDraft (.item number) := by
  cases datum <;> rfl

theorem asField_toDraft (datum : Datum) (role : Role) (name : String) :
    (datum.toDraft role).asField name none = datum.toDraft (.field name) := by
  cases datum <;> rfl

theorem isError_toDraft (datum : Datum) (role : Role) :
    (datum.toDraft role).entry.isError = false := by
  cases datum <;> rfl

end Datum

/-! ## Forgetting places -/

/-- An entry without its places and without the parser's word for it. -/
def Entry.withoutPlaces (entry : Entry) : Entry :=
  { entry with span := default, keySpan := none, concreteKind := none }

namespace Draft

mutual
/-- A draft without its places. -/
def withoutPlaces : Draft → Draft
  | node entry children => node entry.withoutPlaces (withoutPlacesAll children)

/-- Drafts without their places. -/
def withoutPlacesAll : List Draft → List Draft
  | [] => []
  | draft :: rest => draft.withoutPlaces :: withoutPlacesAll rest
end

theorem withoutPlacesAll_eq_map (drafts : List Draft) :
    withoutPlacesAll drafts = drafts.map withoutPlaces := by
  induction drafts with
  | nil => rfl
  | cons draft rest ih => rw [withoutPlacesAll, ih, List.map_cons]

@[simp] theorem withoutPlaces_node (entry : Entry) (children : List Draft) :
    (node entry children).withoutPlaces =
      node entry.withoutPlaces (children.map withoutPlaces) := by
  rw [withoutPlaces, withoutPlacesAll_eq_map]

theorem entry_withoutPlaces (draft : Draft) :
    draft.withoutPlaces.entry = draft.entry.withoutPlaces := by
  cases draft
  rfl

theorem children_withoutPlaces (draft : Draft) :
    draft.withoutPlaces.children = draft.children.map withoutPlaces := by
  cases draft
  rw [withoutPlaces_node, children_node, children_node]

theorem withoutPlaces_asItem (draft : Draft) (number : Nat) :
    (draft.asItem number).withoutPlaces = draft.withoutPlaces.asItem number := by
  cases draft
  rfl

theorem withoutPlaces_asField (draft : Draft) (name : String) (keySpan : Option Span) :
    (draft.asField name keySpan).withoutPlaces = draft.withoutPlaces.asField name none := by
  cases draft
  rfl

theorem isError_of_withoutPlaces {draft other : Draft} (same : draft.withoutPlaces = other) :
    draft.entry.isError = other.entry.isError := by
  rw [← same, entry_withoutPlaces]
  rfl

theorem value_of_withoutPlaces {draft other : Draft} (same : draft.withoutPlaces = other) :
    draft.entry.value = other.entry.value := by
  rw [← same, entry_withoutPlaces]
  rfl

end Draft

/-- A node without places. -/
def Node.withoutPlaces (node : Node) : Node := { node with draft := node.draft.withoutPlaces }

namespace Draft

mutual
theorem size_withoutPlaces : ∀ draft : Draft, draft.withoutPlaces.size = draft.size
  | .node entry children => by
      rw [withoutPlaces, size, size, sizeAll_withoutPlacesAll children]

theorem sizeAll_withoutPlacesAll : ∀ drafts : List Draft,
    sizeAll (withoutPlacesAll drafts) = sizeAll drafts
  | [] => rfl
  | draft :: rest => by
      rw [withoutPlacesAll, sizeAll, sizeAll, size_withoutPlaces draft,
        sizeAll_withoutPlacesAll rest]
end

theorem siblingIds_withoutPlacesAll (drafts : List Draft) (next : Nat) :
    siblingIds next (withoutPlacesAll drafts) = siblingIds next drafts := by
  induction drafts generalizing next with
  | nil => rfl
  | cons draft rest ih =>
      rw [withoutPlacesAll, siblingIds, siblingIds, size_withoutPlaces, ih]

theorem withoutPlaces_toNode (draft : Draft) (parent : Option Nat) (depth id : Nat) :
    (draft.toNode parent depth id).withoutPlaces =
      draft.withoutPlaces.toNode parent depth id := by
  rw [toNode, toNode, Node.withoutPlaces, children_withoutPlaces, ← withoutPlacesAll_eq_map,
    siblingIds_withoutPlacesAll]

mutual
theorem map_withoutPlaces_numberFrom : ∀ (draft : Draft) (parent : Option Nat)
    (depth next : Nat),
    (numberFrom parent depth next draft).map Node.withoutPlaces =
      numberFrom parent depth next draft.withoutPlaces
  | .node entry children, parent, depth, next => by
      rw [numberFrom, List.map_cons, withoutPlaces_toNode,
        map_withoutPlaces_numberAllFrom children, withoutPlaces, numberFrom]

theorem map_withoutPlaces_numberAllFrom : ∀ (drafts : List Draft) (parent depth next : Nat),
    (numberAllFrom parent depth next drafts).map Node.withoutPlaces =
      numberAllFrom parent depth next (withoutPlacesAll drafts)
  | [], _, _, _ => rfl
  | draft :: rest, parent, depth, next => by
      rw [numberAllFrom, List.map_append, map_withoutPlaces_numberFrom draft,
        map_withoutPlaces_numberAllFrom rest, withoutPlacesAll, numberAllFrom,
        size_withoutPlaces]
end

/-- Nodes may be numbered before or after their places are forgotten. -/
theorem map_withoutPlaces_number (draft : Draft) :
    draft.number.map Node.withoutPlaces = draft.withoutPlaces.number := by
  rw [number_eq, number_eq, List.map_toArray, map_withoutPlaces_numberFrom]

end Draft

end Blueprint
