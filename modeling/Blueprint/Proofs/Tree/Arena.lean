import Blueprint.Proofs.Tree.Lineage

/-!
# The table is the draft

A tree keeps its nodes in one table, and everything about their places is read off numbers. This
module says that nothing is lost by it: the table of a draft has one node for each draft inside it,
in document order, and its links are those of the draft (`Tree.isArenaOf_ofDraft`).

What is below a node is one stretch of the table right behind the node. A stretch holds a node if
and only if it holds its parent or begins with the node (`Tree.mem_stretch_iff_of_parent?`), so that
going up from a node by its links meets exactly those in whose stretches it stands
(`Tree.mem_lineage_iff_mem_stretch`).

Reading a draft back uses the entries and the numbers of the children only, not the draft that a
node keeps; it gives the draft that the table was made from (`Tree.readBack_eq`).
-/

set_option autoImplicit false

namespace Blueprint

namespace Draft

/-! ## The drafts inside a draft -/

mutual
/-- The drafts inside a draft in document order, the draft itself first. -/
def subdrafts : Draft → List Draft
  | node entry children => node entry children :: subdraftsAll children

/-- The drafts inside sibling drafts in document order. -/
def subdraftsAll : List Draft → List Draft
  | [] => []
  | draft :: rest => draft.subdrafts ++ subdraftsAll rest
end

mutual
/-- The nodes of a draft stand for the drafts inside it, one after the other. -/
theorem map_draft_numberFrom : ∀ (draft : Draft) (parent : Option Nat) (depth next : Nat),
    (numberFrom parent depth next draft).map Node.draft = draft.subdrafts
  | .node entry children, parent, depth, next => by
      rw [numberFrom, List.map_cons, map_draft_numberAllFrom children, subdrafts]
      rfl

theorem map_draft_numberAllFrom : ∀ (drafts : List Draft) (parent depth next : Nat),
    (numberAllFrom parent depth next drafts).map Node.draft = subdraftsAll drafts
  | [], _, _, _ => rfl
  | draft :: rest, parent, depth, next => by
      rw [numberAllFrom, List.map_append, map_draft_numberFrom draft,
        map_draft_numberAllFrom rest, subdraftsAll]
end

theorem mem_numberAllFrom_of_mem_siblingNodes {drafts : List Draft} {parent depth next : Nat}
    {node : Node} (member : node ∈ siblingNodes parent depth next drafts) :
    node ∈ numberAllFrom parent depth next drafts := by
  induction drafts generalizing next with
  | nil => cases member
  | cons draft rest ih =>
      rw [numberAllFrom]
      apply List.mem_append.mpr
      rcases List.mem_cons.mp member with rfl | later
      · left
        rw [numberFrom_eq_cons]
        exact List.mem_cons_self
      · right
        exact ih later

/-- A list that holds a node holds the children of the node. -/
theorem mem_numberFrom_of_mem_siblingNodes {draft : Draft} {parent : Option Nat}
    {depth next : Nat} {above node : Node} (listed : above ∈ numberFrom parent depth next draft)
    (child : node ∈ siblingNodes above.id (above.depth + 1) (above.id + 1) above.draft.children) :
    node ∈ numberFrom parent depth next draft := by
  obtain ⟨place, found⟩ := List.mem_iff_getElem?.mp listed
  apply List.mem_of_mem_drop (i := place)
  apply (isPrefix_drop_numberFrom draft parent depth next place found).subset
  rw [numberFrom_eq_cons]
  exact List.mem_cons_of_mem _ (mem_numberAllFrom_of_mem_siblingNodes child)

end Draft

/-- The nodes of a node's own draft, itself first. -/
def Node.stretch (node : Node) : List Node :=
  Draft.numberFrom node.parent node.depth node.id node.draft

namespace Tree

variable {tree : Tree} {node other parent : Node}

theorem getElem?_subdrafts (tree : Tree) (id : Nat) :
    tree.draft.subdrafts[id]? = (tree.node? id).map Node.draft := by
  rw [← Draft.map_draft_numberFrom tree.draft none 0 0, List.getElem?_map, node?_eq_getElem?]

theorem size_eq (tree : Tree) : tree.size = tree.draft.size := by
  rw [size, tree.nodes_eq, Draft.number_eq, List.size_toArray, Draft.length_numberFrom]

/-- The numbers that a node keeps for its children all lead to nodes. -/
theorem map_node?_children (member : node ∈ tree.nodes) :
    node.children.map tree.node? = (tree.childrenOf node).map some := by
  rw [← map_id_childrenOf member, List.map_map]
  apply List.map_congr_left
  intro child below
  exact node?_id (mem_nodes_of_mem_childrenOf below)

/-- The numbers that a node keeps for its children are the places of the drafts right below its
own. -/
theorem map_subdrafts_children (member : node ∈ tree.nodes) :
    node.children.map (fun id => tree.draft.subdrafts[id]?) = node.draft.children.map some := by
  have lookup : (fun id => tree.draft.subdrafts[id]?) =
      Option.map Node.draft ∘ tree.node? := funext tree.getElem?_subdrafts
  rw [lookup, ← List.map_map, map_node?_children member, ← map_draft_childrenOf member,
    List.map_map, List.map_map]
  rfl

/-- The first child comes right behind its parent, and each later one behind all that is below the
child before it. -/
theorem getElem?_children (member : node ∈ tree.nodes) (place : Nat) :
    node.children[place]? = node.draft.children[place]?.map fun _ =>
      node.id + 1 + Draft.sizeAll (node.draft.children.take place) := by
  rw [← Draft.getElem?_siblingIds]
  exact congrArg (fun other : Node => other.children[place]?) (eq_toNode member)

/-! ## Stretches of the table -/

theorem mem_stretch_self (member : node ∈ tree.nodes) : node ∈ node.stretch := by
  rw [Node.stretch, Draft.numberFrom_eq_cons, ← eq_toNode member]
  exact List.mem_cons_self

/-- A stretch is told by the numbers in it. -/
theorem mem_stretch_iff (member : node ∈ tree.nodes) (listed : other ∈ tree.nodes) :
    other ∈ node.stretch ↔ node.id ≤ other.id ∧ other.id < node.id + node.draft.size := by
  constructor
  · intro inside
    have number : other.id ∈ node.stretch.map Node.id := List.mem_map_of_mem inside
    rw [Node.stretch, Draft.map_id_numberFrom, List.mem_range'_1] at number
    exact number
  · rintro ⟨low, high⟩
    obtain ⟨beyond, split⟩ := isPrefix_drop member
    have found := node?_id listed
    rw [node?_eq_getElem?, ← Nat.add_sub_cancel' low, ← List.getElem?_drop, ← split,
      List.getElem?_append_left (by rw [Draft.length_numberFrom]; omega)] at found
    exact List.mem_of_getElem? found

theorem id_add_size_le (member : node ∈ tree.nodes) : node.id + node.draft.size ≤ tree.size := by
  have short := (isPrefix_drop member).length_le
  have listed : node.id < (Draft.numberFrom none 0 0 tree.draft).length := by
    have found := node?_id member
    rw [node?_eq_getElem?] at found
    exact (List.getElem?_eq_some_iff.mp found).1
  rw [List.length_drop, Draft.length_numberFrom, Draft.length_numberFrom] at short
  rw [Draft.length_numberFrom] at listed
  rw [size_eq]
  omega

/-- A stretch holds a node if it begins with the node or holds its parent, and not otherwise. -/
theorem mem_stretch_iff_of_parent? (member : node ∈ tree.nodes) (listed : other ∈ tree.nodes)
    (above : tree.parent? other = some parent) :
    other ∈ node.stretch ↔ other = node ∨ parent ∈ node.stretch := by
  have held := mem_nodes_of_parent? above
  constructor
  · intro inside
    rcases Draft.mem_siblingNodes_of_mem_numberFrom _ _ _ _ inside with
      first | ⟨upper, higher, child⟩
    · left
      rw [first, ← eq_toNode member]
    · right
      have number : other.parent = some upper.id := Draft.parent_of_mem_siblingNodes child
      obtain ⟨id, same, found⟩ := Option.bind_eq_some_iff.mp above
      have upper_id : parent.id = upper.id := by
        rw [id_of_node? found]
        exact Option.some.inj (same.symm.trans number)
      have range : upper.id ∈ node.stretch.map Node.id := List.mem_map_of_mem higher
      rw [Node.stretch, Draft.map_id_numberFrom, List.mem_range'_1] at range
      rw [mem_stretch_iff member held, upper_id]
      exact range
  · rintro (rfl | higher)
    · exact mem_stretch_self member
    · apply Draft.mem_numberFrom_of_mem_siblingNodes higher
      rw [← childrenOf_eq held]
      exact mem_childrenOf_of_parent? listed above

/-- Going up from a node meets exactly the nodes in whose stretches it stands. -/
theorem mem_lineage_iff_mem_stretch (member : node ∈ tree.nodes) :
    ∀ other ∈ tree.nodes, node ∈ tree.lineage other ↔ other ∈ node.stretch := by
  refine holds_of_parent? ?_ fun other listed parent above ih => ?_
  · rw [lineage_root, List.mem_singleton, mem_stretch_iff member tree.root_mem_nodes]
    constructor
    · rintro rfl
      exact ⟨Nat.le_refl _, Nat.lt_add_of_pos_right (Draft.size_pos _)⟩
    · rintro ⟨low, _⟩
      exact eq_of_id_eq member tree.root_mem_nodes (Nat.le_zero.mp low)
  · rw [lineage_eq_cons listed above, List.mem_cons, ih,
      mem_stretch_iff_of_parent? member listed above, eq_comm]

theorem id_lt_of_mem_ancestors (listed : other ∈ tree.nodes)
    (above : node ∈ tree.ancestors other) : node.id < other.id := by
  cases isRoot : other.isRoot with
  | true =>
      rw [eq_root_of_isRoot listed isRoot] at above
      cases above
  | false =>
      obtain ⟨parent, upper⟩ := exists_parent?_of_isRoot_eq_false listed isRoot
      rw [ancestors_eq_cons listed upper] at above
      exact Nat.lt_of_le_of_lt (id_le_of_mem_lineage parent (mem_nodes_of_parent? upper) node above)
        (id_lt_of_parent? listed upper)

/-- **What is below a node is the stretch of numbers right behind its own.** -/
theorem mem_ancestors_iff (member : node ∈ tree.nodes) (listed : other ∈ tree.nodes) :
    node ∈ tree.ancestors other ↔
      node.id < other.id ∧ other.id < node.id + node.draft.size := by
  have whole := (mem_lineage_iff_mem_stretch member other listed).trans
    (mem_stretch_iff member listed)
  constructor
  · intro above
    exact ⟨id_lt_of_mem_ancestors listed above, (whole.mp (List.mem_cons_of_mem _ above)).2⟩
  · rintro ⟨low, high⟩
    rcases List.mem_cons.mp (whole.mpr ⟨Nat.le_of_lt low, high⟩) with rfl | above
    · exact absurd low (Nat.lt_irrefl _)
    · exact above

/-! ## Going up -/

theorem depth_eq_length_ancestors :
    ∀ node ∈ tree.nodes, node.depth = (tree.ancestors node).length := by
  refine holds_of_parent? rfl fun node member parent above ih => ?_
  rw [ancestors_eq_cons member above, depth_of_parent? member above, List.length_cons, ih]

/-- Above the root there is nothing, however many steps are allowed. -/
theorem climb_of_depth_le :
    ∀ node ∈ tree.nodes, ∀ steps, node.depth ≤ steps →
      tree.climb steps node.parent = tree.ancestors node := by
  refine holds_of_parent? ?_ fun node member parent above ih => ?_
  · intro steps _
    cases steps <;> rfl
  · intro steps enough
    rw [depth_of_parent? member above] at enough
    obtain ⟨fewer, rfl⟩ := Nat.exists_eq_add_of_le' (Nat.le_of_add_left_le enough)
    rw [ancestors_eq_cons member above, climb]
    rw [parent?] at above
    rw [above]
    exact congrArg _ (ih fewer (Nat.le_of_add_le_add_right enough))

theorem getLast?_lineage :
    ∀ node ∈ tree.nodes, (tree.lineage node).getLast? = some tree.root := by
  refine holds_of_parent? rfl fun node member parent above ih => ?_
  rw [lineage_eq_cons member above, lineage, List.getLast?_cons_cons]
  exact ih

/-! ## Going aside -/

theorem followerOf_getElem? {ids : List Nat} (nodup : ids.Nodup) {place id : Nat}
    (found : ids[place]? = some id) : followerOf id ids = ids[place + 1]? := by
  induction ids generalizing place with
  | nil => cases found
  | cons first rest ih =>
      obtain ⟨fresh, nodup⟩ := List.nodup_cons.mp nodup
      cases place with
      | zero =>
          obtain rfl := Option.some.inj found
          rw [followerOf, if_pos (beq_self_eq_true _), List.head?_eq_getElem?]
          rfl
      | succ place =>
          have later : id ∈ rest := List.mem_of_getElem? found
          have apart : first ≠ id := by
            rintro rfl
            exact fresh later
          rw [followerOf, if_neg (by simpa using apart)]
          exact ih nodup found

/-- The next sibling of a node is the next one among the children of their parent. -/
theorem nextSibling?_eq {place : Nat} (member : node ∈ tree.nodes)
    (found : (tree.childrenOf node)[place]? = some other) :
    tree.nextSibling? other = (tree.childrenOf node)[place + 1]? := by
  have below := List.mem_of_getElem? found
  have nodup : node.children.Nodup := by
    rw [congrArg Node.children (eq_toNode member)]
    exact Draft.nodup_siblingIds _ _
  have number : node.children[place]? = some other.id := by
    rw [← map_id_childrenOf member, List.getElem?_map, found]
    rfl
  rw [nextSibling?, parent?_of_mem_childrenOf member below]
  simp only [Option.bind_eq_bind, Option.bind_some]
  rw [followerOf_getElem? nodup number, ← map_id_childrenOf member, List.getElem?_map]
  cases next : (tree.childrenOf node)[place + 1]? with
  | none => rfl
  | some sibling => exact node?_id (mem_nodes_of_mem_childrenOf (List.mem_of_getElem? next))

/-! ## Reading a draft back -/

/-- The draft that stands below a node, read off the entries and the numbers of children, not more
than so many levels deep. -/
def readBack (tree : Tree) : (levels : Nat) → Node → Draft
  | 0, node => .node node.entry []
  | levels + 1, node => .node node.entry ((tree.childrenOf node).map (tree.readBack levels))

/-- With enough levels, what is read back is the node's own draft. -/
theorem readBack_eq (levels : Nat) :
    ∀ node ∈ tree.nodes, node.draft.size ≤ levels → tree.readBack levels node = node.draft := by
  induction levels with
  | zero =>
      intro node _ none
      exact absurd node.draft.size_pos (Nat.not_lt.mpr none)
  | succ levels ih =>
      intro node member enough
      have below : (tree.childrenOf node).map (tree.readBack levels) = node.draft.children := by
        rw [← map_draft_childrenOf member]
        apply List.map_congr_left
        intro child within
        have less := Draft.size_lt_of_mem_children (draft_mem_of_mem_childrenOf member within)
        exact ih child (mem_nodes_of_mem_childrenOf within) (by omega)
      rw [readBack, below]
      cases drafted : node.draft with
      | node entry children => rw [Node.entry, drafted, Draft.entry_node, Draft.children_node]

/-! ## The arena of a draft -/

/-- A tree whose table is a draft laid out in document order. -/
structure IsArenaOf (tree : Tree) (draft : Draft) : Prop where
  /-- There are as many nodes as there are drafts inside the draft. -/
  size_eq : tree.size = draft.subdrafts.length
  /-- The node of a number stands for the draft at that place, and the numbers of its children are
  the places of the drafts right below that one, in their order: each child comes right behind the
  node and all that is below the children before it. -/
  stands_for : ∀ id node, tree.node? id = some node → node.id = id ∧
    ∃ below, draft.subdrafts[id]? = some below ∧ node.entry = below.entry ∧
      node.children.map (fun child => draft.subdrafts[child]?) = below.children.map some ∧
      ∀ place, node.children[place]? = below.children[place]?.map fun _ =>
        id + 1 + Draft.sizeAll (below.children.take place)
  /-- The root is the first node, and it has no parent. -/
  root : tree.node? 0 = some tree.root ∧ tree.root.parent = none
  mem_childrenOf_iff : ∀ child ∈ tree.nodes, ∀ parent ∈ tree.nodes,
    child ∈ tree.childrenOf parent ↔ tree.parent? child = some parent
  parent_first : ∀ child ∈ tree.nodes, ∀ parent, tree.parent? child = some parent →
    parent.id < child.id
  /-- What is below a node takes up the numbers right behind its own, and no others. -/
  descendants : ∀ node ∈ tree.nodes, ∃ count, node.id + count < tree.size ∧
    ∀ other ∈ tree.nodes,
      node ∈ tree.ancestors other ↔ node.id < other.id ∧ other.id ≤ node.id + count
  depth_eq : ∀ node ∈ tree.nodes, node.depth = (tree.ancestors node).length
  /-- The chain of parents ends by itself, at the root. -/
  ancestors_end : ∀ node ∈ tree.nodes, (tree.lineage node).getLast? = some tree.root ∧
    ∀ steps, node.depth ≤ steps → tree.climb steps node.parent = tree.ancestors node
  nextSibling : ∀ parent ∈ tree.nodes, ∀ place child,
    (tree.childrenOf parent)[place]? = some child →
      tree.nextSibling? child = (tree.childrenOf parent)[place + 1]?
  nextSibling_root : tree.nextSibling? tree.root = none
  /-- Read back from the root, the table is the draft. -/
  reads_back : ∀ levels, tree.size ≤ levels → tree.readBack levels tree.root = draft

/-- **The table of a draft is the draft**: one node for each draft inside it, numbered in document
order, with links that say where each of them stands. -/
theorem isArenaOf_ofDraft (draft : Draft) (syntaxErrors : Bool) :
    (Tree.ofDraft draft syntaxErrors).IsArenaOf draft := by
  have drafted : (Tree.ofDraft draft syntaxErrors).draft = draft := rfl
  generalize Tree.ofDraft draft syntaxErrors = tree at drafted
  subst drafted
  constructor
  case size_eq =>
    rw [← Draft.map_draft_numberFrom tree.draft none 0 0, List.length_map,
      Draft.length_numberFrom, size_eq]
  case stands_for =>
    intro id node found
    have member := mem_nodes_of_node? found
    obtain rfl := id_of_node? found
    refine ⟨rfl, node.draft, ?_, rfl, map_subdrafts_children member, getElem?_children member⟩
    rw [getElem?_subdrafts, found]
    rfl
  case root => exact ⟨node?_id tree.root_mem_nodes, rfl⟩
  case mem_childrenOf_iff =>
    intro child member parent held
    exact ⟨parent?_of_mem_childrenOf held, mem_childrenOf_of_parent? member⟩
  case parent_first =>
    intro child member parent above
    exact id_lt_of_parent? member above
  case descendants =>
    intro node member
    have positive := node.draft.size_pos
    have within := id_add_size_le member
    refine ⟨node.draft.size - 1, by omega, fun other listed => ?_⟩
    rw [mem_ancestors_iff member listed]
    omega
  case depth_eq => exact depth_eq_length_ancestors
  case ancestors_end =>
    intro node member
    exact ⟨getLast?_lineage node member, climb_of_depth_le node member⟩
  case nextSibling =>
    intro parent held place child found
    exact nextSibling?_eq held found
  case nextSibling_root => rfl
  case reads_back =>
    intro levels enough
    rw [size_eq] at enough
    exact readBack_eq levels tree.root tree.root_mem_nodes enough

end Tree

end Blueprint
