import Blueprint.Proofs.Tree.Numbering

/-!
# Lineages

The lineage of a node is the chain of links from the node up to the root. It is read here as a
recursion: the lineage of a child is the child and the lineage of its parent
(`Tree.lineage_eq_cons`), and it ends at the root. Along it the depth falls by one with each step,
and the numbers fall too, since a node is listed before everything below it.

What holds of the root and passes from parents to children holds of every node
(`Tree.holds_of_parent?`), and so does what passes from all children to their parent
(`Tree.holds_of_childrenOf`).
-/

set_option autoImplicit false

namespace Blueprint

namespace Draft

theorem size_lt_of_mem_children {draft child : Draft} (below : child ∈ draft.children) :
    child.size < draft.size := by
  obtain ⟨entry, children⟩ := draft
  have within : child.size ≤ sizeAll children := by
    rw [children_node] at below
    induction children with
    | nil => cases below
    | cons first rest ih =>
        rw [sizeAll]
        rcases List.mem_cons.mp below with rfl | later
        · exact Nat.le_add_right _ _
        · exact Nat.le_trans (ih later) (Nat.le_add_left _ _)
  rw [size]
  exact Nat.lt_succ_of_le within

end Draft

namespace Tree

variable {tree : Tree} {node parent : Node} {holds : Node → Prop}

/-! ## Induction along the links -/

/-- What holds of the root and passes from each parent to its children holds of every node. -/
theorem holds_of_parent? (root : holds tree.root)
    (passes : ∀ node ∈ tree.nodes, ∀ parent, tree.parent? node = some parent →
      holds parent → holds node) :
    ∀ node ∈ tree.nodes, holds node := by
  have atDepth : ∀ depth, ∀ node ∈ tree.nodes, node.depth = depth → holds node := by
    intro depth
    induction depth with
    | zero =>
        intro node member shallow
        cases isRoot : node.isRoot with
        | true => exact eq_root_of_isRoot member isRoot ▸ root
        | false =>
            obtain ⟨parent, above⟩ := exists_parent?_of_isRoot_eq_false member isRoot
            have deeper := depth_of_parent? member above
            omega
    | succ depth ih =>
        intro node member deep
        cases isRoot : node.isRoot with
        | true => exact eq_root_of_isRoot member isRoot ▸ root
        | false =>
            obtain ⟨parent, above⟩ := exists_parent?_of_isRoot_eq_false member isRoot
            have deeper := depth_of_parent? member above
            exact passes node member parent above
              (ih parent (mem_nodes_of_parent? above) (by omega))
  exact fun node member => atDepth node.depth node member rfl

theorem draft_mem_of_mem_childrenOf {child : Node} (member : node ∈ tree.nodes)
    (below : child ∈ tree.childrenOf node) : child.draft ∈ node.draft.children := by
  rw [← map_draft_childrenOf member]
  exact List.mem_map_of_mem below

/-- What passes to each node from all its children holds of every node. -/
theorem holds_of_childrenOf
    (passes : ∀ node ∈ tree.nodes, (∀ child ∈ tree.childrenOf node, holds child) → holds node) :
    ∀ node ∈ tree.nodes, holds node := by
  have ofSize : ∀ size, ∀ node ∈ tree.nodes, node.draft.size ≤ size → holds node := by
    intro size
    induction size with
    | zero =>
        intro node _ small
        have := node.draft.size_pos
        omega
    | succ size ih =>
        intro node member small
        refine passes node member fun child below => ?_
        have less := Draft.size_lt_of_mem_children (draft_mem_of_mem_childrenOf member below)
        exact ih child (mem_nodes_of_mem_childrenOf below) (by omega)
  exact fun node member => ofSize node.draft.size node member (Nat.le_refl _)

/-! ## The chain of links -/

theorem lineage_root (tree : Tree) : tree.lineage tree.root = [tree.root] := rfl

theorem lineage_eq_cons (member : node ∈ tree.nodes) (above : tree.parent? node = some parent) :
    tree.lineage node = node :: tree.lineage parent := by
  rw [lineage, ancestors_eq_cons member above, lineage]

theorem mem_lineage_self (tree : Tree) (node : Node) : node ∈ tree.lineage node :=
  List.mem_cons_self

theorem root_mem_lineage : ∀ node ∈ tree.nodes, tree.root ∈ tree.lineage node := by
  refine holds_of_parent? (tree.mem_lineage_self _) fun node member parent above ih => ?_
  rw [lineage_eq_cons member above]
  exact List.mem_cons_of_mem _ ih

theorem mem_nodes_of_mem_lineage :
    ∀ node ∈ tree.nodes, ∀ other ∈ tree.lineage node, other ∈ tree.nodes := by
  refine holds_of_parent? ?_ fun node member parent above ih => ?_
  · rw [lineage_root]
    exact List.forall_mem_singleton.mpr tree.root_mem_nodes
  · rw [lineage_eq_cons member above]
    exact List.forall_mem_cons.mpr ⟨member, ih⟩

/-- The lineage of a node goes on from each of its nodes as the lineage of that one. -/
theorem lineage_eq_of_append :
    ∀ node ∈ tree.nodes, ∀ lower other upper, tree.lineage node = lower ++ other :: upper →
      tree.lineage other = other :: upper := by
  refine holds_of_parent? ?_ fun node member parent above ih => ?_
  · intro lower other upper split
    cases lower with
    | nil =>
        obtain ⟨rfl, rfl⟩ := List.cons.inj split
        rfl
    | cons first rest =>
        have later := (List.cons.inj split).2
        cases rest <;> cases later
  · intro lower other upper split
    rw [lineage_eq_cons member above] at split
    cases lower with
    | nil =>
        obtain ⟨rfl, rfl⟩ := List.cons.inj split
        exact lineage_eq_cons member above
    | cons first rest => exact ih rest other upper (List.cons.inj split).2

/-- A rank that does not fall from parents to children is not greater further up a lineage. -/
theorem rank_le_of_mem_lineage {rank : Node → Nat}
    (rises : ∀ node ∈ tree.nodes, ∀ parent, tree.parent? node = some parent →
      rank parent ≤ rank node) :
    ∀ node ∈ tree.nodes, ∀ other ∈ tree.lineage node, rank other ≤ rank node := by
  refine holds_of_parent? ?_ fun node member parent above ih => ?_
  · rw [lineage_root]
    exact List.forall_mem_singleton.mpr (Nat.le_refl _)
  · rw [lineage_eq_cons member above]
    refine List.forall_mem_cons.mpr ⟨Nat.le_refl _, fun other further => ?_⟩
    exact Nat.le_trans (ih other further) (rises node member parent above)

/-- Along a lineage the depth falls. -/
theorem pairwise_depth_lineage :
    ∀ node ∈ tree.nodes, (tree.lineage node).Pairwise fun lower upper =>
      upper.depth < lower.depth := by
  have bounded : ∀ node ∈ tree.nodes, ∀ other ∈ tree.lineage node, other.depth ≤ node.depth :=
    rank_le_of_mem_lineage fun node member parent above => by
      rw [depth_of_parent? member above]
      exact Nat.le_succ _
  refine holds_of_parent? ?_ fun node member parent above ih => ?_
  · rw [lineage_root]
    exact List.pairwise_singleton _ _
  · rw [lineage_eq_cons member above]
    refine List.pairwise_cons.mpr ⟨fun other further => ?_, ih⟩
    rw [depth_of_parent? member above]
    exact Nat.lt_succ_of_le (bounded parent (mem_nodes_of_parent? above) other further)

theorem id_lt_of_parent? (member : node ∈ tree.nodes) (above : tree.parent? node = some parent) :
    parent.id < node.id := by
  have listed := mem_nodes_of_parent? above
  have number : node.id ∈ (tree.childrenOf parent).map Node.id :=
    List.mem_map_of_mem (mem_childrenOf_of_parent? member above)
  rw [childrenOf_eq listed, Draft.map_id_siblingNodes] at number
  exact Draft.le_of_mem_siblingIds number

/-- Further up a lineage, nodes are listed earlier. -/
theorem id_le_of_mem_lineage :
    ∀ node ∈ tree.nodes, ∀ other ∈ tree.lineage node, other.id ≤ node.id :=
  rank_le_of_mem_lineage fun _ member _ above => Nat.le_of_lt (id_lt_of_parent? member above)

/-- A node of a lineage is its first, or the parent of another one of it. -/
theorem eq_or_exists_child_of_mem_lineage :
    ∀ node ∈ tree.nodes, ∀ other ∈ tree.lineage node,
      other = node ∨ ∃ child ∈ tree.lineage node, child ∈ tree.childrenOf other := by
  refine holds_of_parent? ?_ fun node member parent above ih => ?_
  · rw [lineage_root]
    exact List.forall_mem_singleton.mpr (.inl rfl)
  · rw [lineage_eq_cons member above]
    refine List.forall_mem_cons.mpr ⟨.inl rfl, fun other further => .inr ?_⟩
    rcases ih other further with rfl | ⟨child, listed, below⟩
    · exact ⟨node, List.mem_cons_self, mem_childrenOf_of_parent? member above⟩
    · exact ⟨child, List.mem_cons_of_mem _ listed, below⟩

end Tree

end Blueprint
