import Blueprint.Draft

/-!
# Numbered document trees

The nodes of a draft are numbered in document order, the root first, and listed in one table.
Each node of the table keeps the draft it stands for together with its links: the number of
its parent, the numbers of its children and its depth. A `Tree` is a draft with its table, and
it notes whether the parser met errors that left no error region behind.

A node's place is read off the links: its ancestors, its next sibling, the path made of the
roles on the way down, and the column that settles which block it belongs to.
-/

set_option autoImplicit false

namespace Blueprint

/-- A node of a tree: the draft it stands for, and its links to the rest. -/
structure Node where
  /-- The number of the node in document order. -/
  id : Nat
  /-- The node with everything below it. -/
  draft : Draft
  /-- The number of the parent; only the root has none. -/
  parent : Option Nat
  /-- The numbers of the children, in document order. -/
  children : List Nat
  /-- The number of ancestors. -/
  depth : Nat
deriving Repr

namespace Node

/-- What the node says of itself. -/
def entry (node : Node) : Entry := node.draft.entry

/-- The kind of a node. -/
def kind (node : Node) : NodeKind := node.entry.kind

/-- The span of a node. -/
def span (node : Node) : Span := node.entry.span

/-- The role of a node in its parent. -/
def role (node : Node) : Role := node.entry.role

/-- Whether a node is the root. -/
def isRoot (node : Node) : Bool := node.parent.isNone

/-- Where a node's entry begins: at its key if it has one. -/
def entryStart (node : Node) : Position := node.entry.entryStart

/-- Whether a node's span contains a position, within a leeway at its start. -/
def containsWithin (node : Node) (position : Position) (leeway : Nat) : Bool :=
  node.span.containsWithin position leeway

end Node

namespace Draft

/-- The numbers of sibling drafts, the first of which is numbered `next`. -/
def siblingIds (next : Nat) : List Draft → List Nat
  | [] => []
  | draft :: rest => next :: siblingIds (next + draft.size) rest

/-- The node that a draft becomes under the number `id`. -/
def toNode (draft : Draft) (parent : Option Nat) (depth id : Nat) : Node :=
  { id, draft, parent, children := siblingIds (id + 1) draft.children, depth }

/-- A draft that waits for its number: what is its parent's number, and how deep it is. -/
structure Waiting where
  draft : Draft
  parent : Option Nat
  depth : Nat

/-- Sibling drafts as they wait. -/
def waitBelow (parent depth : Nat) (drafts : List Draft) : List Waiting :=
  drafts.map fun draft => ⟨draft, some parent, depth⟩

theorem map_draft_waitBelow (parent depth : Nat) (drafts : List Draft) :
    (waitBelow parent depth drafts).map Waiting.draft = drafts := by
  simp [waitBelow, Function.comp_def]

theorem sizeAll_append (left right : List Draft) :
    sizeAll (left ++ right) = sizeAll left + sizeAll right := by
  induction left with
  | nil => simp [sizeAll]
  | cons draft rest ih => simp [sizeAll, ih, Nat.add_assoc]

/-- The table with more numbers among the children of a node, if there is a node to note them at. -/
def noteChildren (nodes : Array Node) (ids : List Nat) : Option Nat → Array Node
  | none => nodes
  | some parent =>
    nodes.modify parent fun node => { node with children := node.children ++ ids }

/-- Number the drafts that wait, the first one next. What is below a draft waits in front of the
others, in document order, and a node learns of a child when the child is numbered. -/
def fill (nodes : Array Node) : List Waiting → Array Node
  | [] => nodes
  | ⟨node entry children, parent, depth⟩ :: rest =>
    let id := nodes.size
    let fresh : Node := { id, draft := node entry children, parent, children := [], depth }
    fill (noteChildren (nodes.push fresh) [id] parent) (waitBelow id (depth + 1) children ++ rest)
termination_by waiting => sizeAll (waiting.map Waiting.draft)
decreasing_by
  simp only [List.map_append, map_draft_waitBelow, List.map_cons, sizeAll_append, sizeAll, size]
  omega

/-- The table of a draft's nodes. -/
def number (draft : Draft) : Array Node := fill #[] [⟨draft, none, 0⟩]

mutual
/-- The number of the node reached from a draft numbered `id` by going again and again into the
first child that contains a position. -/
def deepestFrom (position : Position) (leeway id : Nat) : Draft → Nat
  | node _ children => deepestAmong position leeway id (id + 1) children

/-- The same among sibling drafts numbered from `next` on; `otherwise` if none contains the
position. -/
def deepestAmong (position : Position) (leeway otherwise next : Nat) : List Draft → Nat
  | [] => otherwise
  | draft :: rest =>
    if draft.entry.span.containsWithin position leeway then deepestFrom position leeway next draft
    else deepestAmong position leeway otherwise (next + draft.size) rest
end

end Draft

/-- A document tree with the table of its nodes. -/
structure Tree where
  draft : Draft
  /-- Whether the parser reported errors. -/
  syntaxErrors : Bool
  nodes : Array Node
  /-- The table is the numbering of the draft. -/
  nodes_eq : nodes = draft.number

namespace Tree

/-- The tree of a draft. -/
def ofDraft (draft : Draft) (syntaxErrors : Bool) : Tree :=
  { draft, syntaxErrors, nodes := draft.number, nodes_eq := rfl }

/-- The number of nodes. -/
def size (tree : Tree) : Nat := tree.nodes.size

/-- The root. -/
def root (tree : Tree) : Node := tree.draft.toNode none 0 0

/-- The node of a number. -/
def node? (tree : Tree) (id : Nat) : Option Node := tree.nodes[id]?

/-- How many nodes are errors. -/
def errorCount (tree : Tree) : Nat := tree.nodes.countP fun node => node.entry.isError

/-- Whether the tree came from text that did not parse cleanly. -/
def hasErrors (tree : Tree) : Bool :=
  tree.syntaxErrors || tree.nodes.any fun node => node.entry.isError

/-- The parent of a node. -/
def parent? (tree : Tree) (node : Node) : Option Node := node.parent.bind tree.node?

/-- The children of a node. -/
def childrenOf (tree : Tree) (node : Node) : List Node := node.children.filterMap tree.node?

/-- The first `steps` nodes met by going from parent to parent, beginning with `next`. -/
def climb (tree : Tree) : (steps : Nat) → (next : Option Nat) → List Node
  | 0, _ => []
  | steps + 1, next =>
    match next.bind tree.node? with
    | none => []
    | some node => node :: climb tree steps node.parent

/-- Parent, grandparent and so on up to the root: as many as the node is deep. -/
def ancestors (tree : Tree) (node : Node) : List Node := tree.climb node.depth node.parent

/-- A node followed by its ancestors. -/
def lineage (tree : Tree) (node : Node) : List Node := node :: tree.ancestors node

/-- The number that follows `id` in a list of numbers. -/
def followerOf (id : Nat) : List Nat → Option Nat
  | [] => none
  | first :: rest => if first == id then rest.head? else followerOf id rest

/-- The child of the parent that comes next after a node. -/
def nextSibling? (tree : Tree) (node : Node) : Option Node := do
  let parent ← tree.parent? node
  let next ← followerOf node.id parent.children
  tree.node? next

/-- The column that settles which block a node belongs to: its key for an entry, the parent for
an item, its own start otherwise. -/
def anchorColumn (tree : Tree) (node : Node) : Nat :=
  match node.role with
  | .field _ => node.entryStart.column
  | .item _ =>
    match tree.parent? node with
    | some parent => parent.span.start.column
    | none => node.span.start.column
  | .loose => node.span.start.column

/-- The path of a node: the segments of its lineage from the root down. -/
def pathOf (tree : Tree) (node : Node) : Path :=
  ((tree.lineage node).filterMap fun member => member.role.segment?).reverse

/-- The number of the node reached from a node by going again and again into the first child
that contains a position. -/
def deepestChildAt (node : Node) (position : Position) (leeway : Nat) : Nat :=
  node.draft.deepestFrom position leeway node.id

end Tree

end Blueprint
