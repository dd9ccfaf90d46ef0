import Mathlib.Data.List.Sort
import Blueprint.Proofs.Lookup.Scan
import Blueprint.Proofs.Tree.Lineage

/-!
# Going down and looking up

There are two ways to the deepest node at a position. One goes down from the root, again and again
into the first child that contains the position; the other looks at a line and puts what it finds
in order. They agree as soon as the tree settles the position (`Tree.Settles`): a node that contains
it has a parent that contains it, and no two children of one node contain it.

Going down stops at a node none of whose children contains the position
(`Tree.exists_deepestChildAt`). In a tree that settles the position every node that contains it is
in the lineage of this node, and the whole lineage contains it. So the lineage, read from the root,
is what the line gives (`Lookup.nodesAt_eq_lineage_of_settles`).
-/

set_option autoImplicit false

namespace Blueprint

/-! ## One step down -/

theorem Draft.deepestAmong_eq (position : Position) (leeway otherwise : Nat) (drafts : List Draft)
    (parent depth next : Nat) :
    deepestAmong position leeway otherwise next drafts =
      ((siblingNodes parent depth next drafts).find? fun child =>
        child.containsWithin position leeway).elim otherwise fun child =>
          Tree.deepestChildAt child position leeway := by
  induction drafts generalizing next with
  | nil => rfl
  | cons draft rest ih =>
      rw [deepestAmong, siblingNodes, List.find?_cons, ih]
      cases inside : draft.entry.span.containsWithin position leeway with
      | true =>
          rw [show (draft.toNode (some parent) depth next).containsWithin position leeway = true
            from inside]
          rfl
      | false =>
          rw [show (draft.toNode (some parent) depth next).containsWithin position leeway = false
            from inside]
          rfl

namespace Tree

variable {tree : Tree} {position : Position} {leeway : Nat} {node : Node}

/-- Going down goes on from the first child that contains the position, and stops where there is
none. -/
theorem deepestChildAt_eq (member : node ∈ tree.nodes) :
    deepestChildAt node position leeway =
      ((tree.childrenOf node).find? fun child => child.containsWithin position leeway).elim node.id
        fun child => deepestChildAt child position leeway := by
  rw [childrenOf_eq member, ← Draft.deepestAmong_eq, deepestChildAt]
  cases node.draft with
  | node entry children => rw [Draft.deepestFrom, Draft.children_node]

/-- Going down from a node that contains the position ends at a node that contains it while none
of its children does. -/
theorem exists_deepestChildAt :
    ∀ node ∈ tree.nodes, node.containsWithin position leeway = true →
      ∃ deepest, tree.node? (deepestChildAt node position leeway) = some deepest ∧
        deepest.containsWithin position leeway = true ∧
        ∀ child ∈ tree.childrenOf deepest, child.containsWithin position leeway = false := by
  refine holds_of_childrenOf fun node member ih inside => ?_
  rw [deepestChildAt_eq member]
  cases next : (tree.childrenOf node).find? fun child => child.containsWithin position leeway with
  | none =>
      refine ⟨node, node?_id member, inside, fun child below => ?_⟩
      exact Bool.eq_false_iff.mpr (List.find?_eq_none.mp next child below)
  | some child =>
      have childInside := List.find?_some next
      exact ih child (List.mem_of_find?_eq_some next) childInside

/-! ## Positions that a tree settles -/

/-- A tree settles a position when each node that contains it, the root apart, has a parent that
contains it, and no two children of one node contain it. -/
structure Settles (tree : Tree) (position : Position) (leeway : Nat) : Prop where
  parent_contains : ∀ node ∈ tree.nodes, node.isRoot = false →
    node.containsWithin position leeway = true →
      ∃ parent, tree.parent? node = some parent ∧ parent.containsWithin position leeway = true
  one_child : ∀ node ∈ tree.nodes, (tree.childrenOf node).Pairwise fun first second =>
    ¬(first.containsWithin position leeway = true ∧ second.containsWithin position leeway = true)

instance (tree : Tree) (position : Position) (leeway : Nat) :
    Decidable (tree.Settles position leeway) :=
  decidable_of_iff
    ((∀ node ∈ tree.nodes, node.isRoot = false → node.containsWithin position leeway = true →
        ((tree.parent? node).any fun parent => parent.containsWithin position leeway) = true) ∧
      ∀ node ∈ tree.nodes, (tree.childrenOf node).Pairwise fun first second =>
        (first.containsWithin position leeway && second.containsWithin position leeway) =
          false) (by
    have notBoth : ∀ first second : Node,
        (first.containsWithin position leeway && second.containsWithin position leeway) = false ↔
          ¬(first.containsWithin position leeway = true ∧
            second.containsWithin position leeway = true) := by
      intro first second
      rw [← Bool.not_eq_true, Bool.and_eq_true]
    simp only [Option.any_eq_true, notBoth]
    exact ⟨fun settles => ⟨settles.1, settles.2⟩, fun settles => ⟨settles.1, settles.2⟩⟩)

namespace Settles

theorem parent_of_contains (settles : tree.Settles position leeway) (member : node ∈ tree.nodes)
    {parent : Node} (above : tree.parent? node = some parent)
    (inside : node.containsWithin position leeway = true) :
    parent.containsWithin position leeway = true := by
  have below : node.isRoot = false := by
    cases isRoot : node.isRoot with
    | false => rfl
    | true =>
        rw [eq_root_of_isRoot member isRoot] at above
        cases above
  obtain ⟨other, same, contains⟩ := settles.parent_contains node member below inside
  rw [above] at same
  exact Option.some.inj same ▸ contains

theorem find?_childrenOf (settles : tree.Settles position leeway) (member : node ∈ tree.nodes)
    {child : Node} (below : child ∈ tree.childrenOf node)
    (inside : child.containsWithin position leeway = true) :
    (tree.childrenOf node).find? (fun other => other.containsWithin position leeway) =
      some child := by
  have apart := settles.one_child node member
  obtain ⟨front, back, split⟩ := List.append_of_mem below
  rw [split] at apart ⊢
  refine List.find?_eq_some_iff_append.mpr ⟨inside, front, back, rfl, fun other earlier => ?_⟩
  have notBoth := (List.pairwise_append.mp apart).2.2 other earlier child List.mem_cons_self
  simpa [inside] using notBoth

/-- Of the children of a node only one contains the position. -/
theorem eq_of_contains (settles : tree.Settles position leeway) (member : node ∈ tree.nodes)
    {first second : Node} (firstBelow : first ∈ tree.childrenOf node)
    (secondBelow : second ∈ tree.childrenOf node)
    (firstInside : first.containsWithin position leeway = true)
    (secondInside : second.containsWithin position leeway = true) : first = second := by
  have found := settles.find?_childrenOf member firstBelow firstInside
  rw [settles.find?_childrenOf member secondBelow secondInside] at found
  exact (Option.some.inj found).symm

theorem contains_of_mem_lineage (settles : tree.Settles position leeway) :
    ∀ node ∈ tree.nodes, node.containsWithin position leeway = true →
      ∀ other ∈ tree.lineage node, other.containsWithin position leeway = true := by
  refine holds_of_parent? ?_ fun node member parent above ih inside => ?_
  · intro inside
    rw [lineage_root]
    exact List.forall_mem_singleton.mpr inside
  · rw [lineage_eq_cons member above]
    exact List.forall_mem_cons.mpr
      ⟨inside, ih (settles.parent_of_contains member above inside)⟩

/-- A node none of whose children contains the position has in its lineage every node that
contains it. -/
theorem mem_lineage_of_contains (settles : tree.Settles position leeway) {deepest : Node}
    (listed : deepest ∈ tree.nodes) (inside : deepest.containsWithin position leeway = true)
    (last : ∀ child ∈ tree.childrenOf deepest, child.containsWithin position leeway = false) :
    ∀ node ∈ tree.nodes, node.containsWithin position leeway = true →
      node ∈ tree.lineage deepest := by
  refine holds_of_parent? (fun _ => root_mem_lineage deepest listed) ?_
  intro node member parent above ih nodeInside
  have held := mem_nodes_of_parent? above
  have below := mem_childrenOf_of_parent? member above
  have parentInside := settles.parent_of_contains member above nodeInside
  rcases eq_or_exists_child_of_mem_lineage deepest listed parent (ih parentInside) with
    rfl | ⟨child, further, sibling⟩
  · rw [last node below] at nodeInside
    cases nodeInside
  · have childInside := settles.contains_of_mem_lineage deepest listed inside child further
    exact settles.eq_of_contains held below sibling nodeInside childInside ▸ further

/-- Outside the root there is nothing at the position. -/
theorem not_contains (settles : tree.Settles position leeway)
    (outside : tree.root.containsWithin position leeway = false) :
    ∀ node ∈ tree.nodes, node.containsWithin position leeway = false := by
  refine holds_of_parent? outside fun node member parent above parentOutside => ?_
  refine Bool.eq_false_iff.mpr fun inside => ?_
  rw [settles.parent_of_contains member above inside] at parentOutside
  cases parentOutside

end Settles

end Tree

namespace Lookup

/-- **Going down and looking up agree.** In a tree that settles a position, the nodes at the
position are the lineage of the node that going down from the root ends at, read from the root; so
that node is the deepest one. If the root does not contain the position there are none, and going
down ends where it begins. -/
theorem nodesAt_eq_lineage_of_settles (tree : Tree) (position : Position) (leeway : Nat)
    (settles : tree.Settles position leeway) :
    (tree.root.containsWithin position leeway = true →
      ∃ deepest, tree.node? (Tree.deepestChildAt tree.root position leeway) = some deepest ∧
        (build tree).nodesAt position leeway = (tree.lineage deepest).reverse ∧
        (build tree).deepestAt position leeway = some deepest) ∧
      (tree.root.containsWithin position leeway = false →
        (build tree).nodesAt position leeway = [] ∧
          Tree.deepestChildAt tree.root position leeway = tree.root.id) := by
  constructor
  · intro inside
    obtain ⟨deepest, reached, deepestInside, last⟩ :=
      Tree.exists_deepestChildAt tree.root tree.root_mem_nodes inside
    have listed := Tree.mem_nodes_of_node? reached
    have chain : (build tree).nodesAt position leeway = (tree.lineage deepest).reverse := by
      have descending := (Tree.pairwise_depth_lineage deepest listed).imp
        (S := fun lower upper => Node.Before upper lower) .inl
      refine (pairwise_nodesAt_build tree position leeway).eq_of_mem_iff
        (List.pairwise_reverse.mpr descending) fun node => ?_
      rw [List.mem_reverse, mem_nodesAt_build_iff]
      constructor
      · rintro ⟨member, nodeInside⟩
        exact settles.mem_lineage_of_contains listed deepestInside last node member nodeInside
      · intro further
        exact ⟨Tree.mem_nodes_of_mem_lineage deepest listed node further,
          settles.contains_of_mem_lineage deepest listed deepestInside node further⟩
    refine ⟨deepest, reached, chain, ?_⟩
    rw [deepestAt, chain, List.getLast?_reverse]
    rfl
  · intro outside
    have nothing := settles.not_contains outside
    constructor
    · rw [List.eq_nil_iff_forall_not_mem]
      intro node found
      obtain ⟨member, inside⟩ := mem_nodesAt_build_iff.mp found
      rw [nothing node member] at inside
      cases inside
    · rw [Tree.deepestChildAt_eq tree.root_mem_nodes, List.find?_eq_none.mpr]
      · rfl
      · intro child below
        rw [nothing child (Tree.mem_nodes_of_mem_childrenOf below)]
        exact Bool.false_ne_true

/-! ### A list in the second of two entries -/

namespace TwoEntries

/-- The entry `a` on one line, the entry `b` with a list of two items on the next. -/
def tree : Tree :=
  .ofDraft (.node (.ofKind .document (.closed ⟨1, 1⟩ ⟨3, 1⟩))
    [.node (.ofKind .mapping (.closed ⟨1, 1⟩ ⟨2, 10⟩))
      [(Draft.word "x" 1 4).under "a" 1 1,
        (Draft.node (.ofKind .sequence (.closed ⟨2, 4⟩ ⟨2, 10⟩))
          [(Draft.word "y" 2 5).asItem 0, (Draft.word "z" 2 8).asItem 1]).under "b" 2 1]]) false

/-- The second item is found by way of the mapping and the list; past the end of the text nothing
is found. -/
theorem nodesAt_eq_lineage_of_settles_twoEntries :
    (tree.Settles ⟨2, 8⟩ 1 ∧ Tree.deepestChildAt tree.root ⟨2, 8⟩ 1 = 5 ∧
        ∃ deepest, tree.node? 5 = some deepest ∧
          (build tree).nodesAt ⟨2, 8⟩ 1 = (tree.lineage deepest).reverse ∧
          (build tree).deepestAt ⟨2, 8⟩ 1 = some deepest) ∧
      tree.Settles ⟨4, 1⟩ 1 ∧ (build tree).nodesAt ⟨4, 1⟩ 1 = [] ∧
        Tree.deepestChildAt tree.root ⟨4, 1⟩ 1 = tree.root.id :=
  ⟨⟨by decide +kernel, by decide +kernel,
      (nodesAt_eq_lineage_of_settles tree ⟨2, 8⟩ 1 (by decide +kernel)).1 (by decide +kernel)⟩,
    by decide +kernel,
    (nodesAt_eq_lineage_of_settles tree ⟨4, 1⟩ 1 (by decide +kernel)).2 (by decide +kernel)⟩

end TwoEntries

end Lookup

end Blueprint
