import Mathlib.Data.List.Chain
import Blueprint.Semantic

/-!
# The chain of nodes at a position

The chain at a position goes down from the root, again and again into the first child that contains
the position. It is a descent, a list of nodes that contain the position, each a child of the one
before, and no descent goes on from it (`SemanticTree.maximalDescent_chainAt`).

In a tree that settles the position (`SemanticTree.Settles`), nodes that contain it have parents
that contain it, and no two siblings do. Such a tree has no other node that contains the position:
the chain is all of them, each at the depth of its place in the chain
(`SemanticTree.filter_levels`).
-/

set_option autoImplicit false

namespace Blueprint.SemanticTree

theorem holds_of_children {Holds : SemanticTree → Prop}
    (step : ∀ tree, (∀ child ∈ tree.children, Holds child) → Holds tree) : ∀ tree, Holds tree
  | node entry children => step _ fun child _ => holds_of_children step child
termination_by tree => sizeOf tree
decreasing_by
  have less := List.sizeOf_lt_of_mem ‹child ∈ children›
  simp only [node.sizeOf_spec]
  omega

variable {position : Position} {tree : SemanticTree} {chain : List SemanticTree}

/-- Whether a node contains a position. -/
def isAt (position : Position) (tree : SemanticTree) : Bool := tree.entry.span.contains position

/-! ## Going down -/

theorem descendAmong_eq (position : Position) (trees : List SemanticTree) :
    descendAmong position trees =
      (trees.find? (isAt position)).elim [] fun child => child.chainAt position := by
  induction trees with
  | nil => rfl
  | cons tree rest ih =>
      rw [descendAmong, List.find?_cons, ih]
      cases inside : isAt position tree with
      | true =>
          have here : tree.entry.span.contains position = true := inside
          rw [if_pos here, Option.elim_some, chainAt, if_pos here]
      | false =>
          have here : tree.entry.span.contains position ≠ true := ne_true_of_eq_false inside
          rw [if_neg here]

/-- The chain begins with the root, if that contains the position, and goes on with the chain of
the first child that does. -/
theorem chainAt_eq (tree : SemanticTree) (position : Position) : tree.chainAt position =
    if isAt position tree then
      tree :: (tree.children.find? (isAt position)).elim [] fun child => child.chainAt position
    else [] := by
  rw [← descendAmong_eq]
  obtain ⟨entry, children⟩ := tree
  rfl

theorem chainAt_eq_nil_iff :
    tree.chainAt position = [] ↔ isAt position tree = false := by
  rw [chainAt_eq]
  cases isAt position tree <;> simp

/-- A list of nodes that contain a position, from the root and each a child of the one before. -/
structure Descent (position : Position) (tree : SemanticTree) (chain : List SemanticTree) :
    Prop where
  fromRoot : ∀ top ∈ chain.head?, top = tree
  toChild : chain.IsChain fun parent child => child ∈ parent.children
  contains : ∀ node ∈ chain, isAt position node = true

/-- A descent that no other goes on from. -/
structure MaximalDescent (position : Position) (tree : SemanticTree) (chain : List SemanticTree) :
    Prop extends Descent position tree chain where
  maximal : ∀ longer, Descent position tree longer → chain <+: longer → longer = chain

namespace Descent

theorem nil (position : Position) (tree : SemanticTree) : Descent position tree [] where
  fromRoot := by simp
  toChild := .nil
  contains := by simp

theorem cons {child : SemanticTree} (below : child ∈ tree.children)
    (inside : isAt position tree = true) (rest : Descent position child chain) :
    Descent position tree (tree :: chain) where
  fromRoot := by simp
  toChild := by
    refine List.isChain_cons.mpr ⟨fun next first => ?_, rest.toChild⟩
    rw [rest.fromRoot next first]
    exact below
  contains := List.forall_mem_cons.mpr ⟨inside, rest.contains⟩

theorem eq_root {top : SemanticTree} (descent : Descent position tree (top :: chain)) :
    top = tree := descent.fromRoot top rfl

/-- A descent goes on into a child that contains the position. -/
theorem tail {top next : SemanticTree} (descent : Descent position tree (top :: next :: chain)) :
    next ∈ tree.children ∧ Descent position next (next :: chain) := by
  obtain ⟨step, rest⟩ := List.isChain_cons_cons.mp descent.toChild
  refine ⟨descent.eq_root ▸ step, ?_, rest, fun node member => ?_⟩
  · simp
  · exact descent.contains node (List.mem_cons_of_mem _ member)

end Descent

/-- The chain at a position is a descent, and it goes as far as a descent can. -/
theorem maximalDescent_chainAt (position : Position) :
    ∀ tree : SemanticTree, MaximalDescent position tree (tree.chainAt position) := by
  refine holds_of_children fun tree ih => ?_
  rw [chainAt_eq]
  cases inside : isAt position tree with
  | false =>
      refine ⟨Descent.nil position tree, fun longer descent _ => ?_⟩
      cases longer with
      | nil => rfl
      | cons top rest =>
          have outside := descent.contains top List.mem_cons_self
          rw [descent.eq_root, inside] at outside
          cases outside
  | true =>
      rw [if_pos rfl]
      cases next : tree.children.find? (isAt position) with
      | none =>
          refine ⟨⟨by simp, .singleton _, by simpa using inside⟩, fun longer descent starts => ?_⟩
          obtain ⟨rest, rfl⟩ := starts
          cases rest with
          | nil => rfl
          | cons child others =>
              -- The next node would be a child that contains the position.
              obtain ⟨below, deeper⟩ := descent.tail
              have hit := deeper.contains child List.mem_cons_self
              exact absurd hit (List.find?_eq_none.mp next child below)
      | some child =>
          have below := List.mem_of_find?_eq_some next
          have childInside : isAt position child = true := List.find?_some next
          obtain ⟨descent, maximal⟩ := ih child below
          refine ⟨descent.cons below inside, fun longer deeper starts => ?_⟩
          rw [Option.elim_some] at starts ⊢
          rw [chainAt_eq, if_pos childInside] at maximal starts ⊢
          obtain ⟨rest, rfl⟩ := starts
          have tail := deeper.tail.2
          exact congrArg (tree :: ·) (maximal _ tail (List.prefix_append _ _))

/-! ## Positions that a tree settles -/

mutual
/-- All nodes of a tree with their depths, in document order. -/
def levels (depth : Nat) : SemanticTree → List (SemanticTree × Nat)
  | node entry children => (node entry children, depth) :: levelsAmong (depth + 1) children

/-- All nodes of the trees with their depths, in document order. -/
def levelsAmong (depth : Nat) : List SemanticTree → List (SemanticTree × Nat)
  | [] => []
  | tree :: rest => levels depth tree ++ levelsAmong depth rest
end

/-- A tree settles a position when each node that contains it, the root apart, has a parent that
contains it, and no two children of one node contain it. -/
structure Settles (tree : SemanticTree) (position : Position) : Prop where
  parent_contains : ∀ node ∈ tree.nodes, ∀ child ∈ node.children,
    isAt position child = true → isAt position node = true
  one_child : ∀ node ∈ tree.nodes, node.children.Pairwise fun first second =>
    ¬(isAt position first = true ∧ isAt position second = true)

instance (tree : SemanticTree) (position : Position) : Decidable (tree.Settles position) :=
  decidable_of_iff
    ((∀ node ∈ tree.nodes, ∀ child ∈ node.children,
        isAt position child = true → isAt position node = true) ∧
      ∀ node ∈ tree.nodes, node.children.Pairwise fun first second =>
        ¬(isAt position first = true ∧ isAt position second = true))
    ⟨fun settles => ⟨settles.1, settles.2⟩, fun settles => ⟨settles.1, settles.2⟩⟩

theorem nodes_eq (tree : SemanticTree) : tree.nodes = tree :: nodesAmong tree.children := by
  obtain ⟨entry, children⟩ := tree
  rfl

theorem levels_eq (depth : Nat) (tree : SemanticTree) :
    tree.levels depth = (tree, depth) :: levelsAmong (depth + 1) tree.children := by
  obtain ⟨entry, children⟩ := tree
  rfl

mutual
theorem map_fst_levels : ∀ (depth : Nat) (tree : SemanticTree),
    (tree.levels depth).map Prod.fst = tree.nodes
  | depth, node entry children => by
      rw [levels, nodes, List.map_cons, map_fst_levelsAmong (depth + 1) children]

theorem map_fst_levelsAmong : ∀ (depth : Nat) (trees : List SemanticTree),
    (levelsAmong depth trees).map Prod.fst = nodesAmong trees
  | _, [] => rfl
  | depth, tree :: rest => by
      rw [levelsAmong, nodesAmong, List.map_append, map_fst_levels depth tree,
        map_fst_levelsAmong depth rest]
end

theorem mem_nodesAmong {trees : List SemanticTree} {found : SemanticTree} :
    found ∈ nodesAmong trees ↔ ∃ tree ∈ trees, found ∈ tree.nodes := by
  induction trees with
  | nil => simp [nodesAmong]
  | cons tree rest ih => simp [nodesAmong, ih]

theorem mem_nodes_self (tree : SemanticTree) : tree ∈ tree.nodes := by
  rw [nodes_eq]
  exact List.mem_cons_self

namespace Settles

/-- What a tree settles, the trees below it settle. -/
theorem child (settles : tree.Settles position) {child : SemanticTree}
    (below : child ∈ tree.children) : child.Settles position := by
  have inside : ∀ node ∈ child.nodes, node ∈ tree.nodes := fun node member => by
    rw [nodes_eq]
    exact List.mem_cons_of_mem _ (mem_nodesAmong.mpr ⟨child, below, member⟩)
  exact ⟨fun node member => settles.parent_contains node (inside node member),
    fun node member => settles.one_child node (inside node member)⟩

end Settles

/-- Of siblings no two of which contain the position, only the first that does has nodes at it. -/
theorem filter_levelsAmong {trees : List SemanticTree} (depth : Nat)
    (apart : trees.Pairwise fun first second =>
      ¬(isAt position first = true ∧ isAt position second = true))
    (outside : ∀ tree ∈ trees, isAt position tree = false →
      (tree.levels depth).filter (fun level => isAt position level.1) = []) :
    (levelsAmong depth trees).filter (fun level => isAt position level.1) =
      (trees.find? (isAt position)).elim [] fun child =>
        (child.levels depth).filter fun level => isAt position level.1 := by
  induction trees with
  | nil => rfl
  | cons tree rest ih =>
      obtain ⟨alone, apart⟩ := List.pairwise_cons.mp apart
      have later := ih apart fun other member => outside other (List.mem_cons_of_mem _ member)
      rw [levelsAmong, List.filter_append, later, List.find?_cons]
      cases inside : isAt position tree with
      | true =>
          have none : rest.find? (isAt position) = none :=
            List.find?_eq_none.mpr fun other member hit => alone other member ⟨inside, hit⟩
          rw [none, Option.elim_none, List.append_nil, Option.elim_some]
      | false => rw [outside tree List.mem_cons_self inside, List.nil_append]

/-- A tree that settles a position has no node at it when the root is not at it. -/
theorem filter_levels_of_outside (position : Position) : ∀ tree : SemanticTree,
    tree.Settles position → isAt position tree = false → ∀ depth,
      (tree.levels depth).filter (fun level => isAt position level.1) = [] := by
  refine holds_of_children fun tree ih settles outside depth => ?_
  have childOutside : ∀ child ∈ tree.children, isAt position child = false := fun child below =>
    Bool.eq_false_iff.mpr fun inside => by
      have above := settles.parent_contains tree tree.mem_nodes_self child below inside
      rw [outside] at above
      cases above
  have none : tree.children.find? (isAt position) = none :=
    List.find?_eq_none.mpr fun child below => by simp [childOutside child below]
  rw [levels_eq, List.filter_cons_of_neg (by simp [outside]),
    filter_levelsAmong _ (settles.one_child tree tree.mem_nodes_self)
      (fun child below _ => ih child below (settles.child below) (childOutside child below) _),
    none, Option.elim_none]

/-- In a tree that settles a position the chain is all nodes that contain it, each at the depth of
its place in the chain. -/
theorem filter_levels (position : Position) : ∀ tree : SemanticTree,
    tree.Settles position → ∀ depth,
      (tree.levels depth).filter (fun level => isAt position level.1) =
        (tree.chainAt position).zipIdx depth := by
  refine holds_of_children fun tree ih settles depth => ?_
  rw [chainAt_eq]
  cases inside : isAt position tree with
  | false => exact filter_levels_of_outside position tree settles inside depth
  | true =>
      have apart := settles.one_child tree tree.mem_nodes_self
      rw [levels_eq, List.filter_cons_of_pos (by simpa using inside),
        filter_levelsAmong _ apart fun child below outside =>
          filter_levels_of_outside position child (settles.child below) outside _,
        if_pos rfl, List.zipIdx_cons]
      cases next : tree.children.find? (isAt position) with
      | none => rfl
      | some child =>
          have below := List.mem_of_find?_eq_some next
          rw [Option.elim_some, Option.elim_some, ih child below (settles.child below)]

/-- In a tree that settles a position the chain is all nodes that contain it, in document order. -/
theorem filter_nodes (settles : tree.Settles position) :
    tree.nodes.filter (isAt position) = tree.chainAt position := by
  rw [← map_fst_levels 0, List.filter_map]
  exact (congrArg (List.map Prod.fst) (filter_levels position tree settles 0)).trans
    (List.zipIdx_map_fst 0 _)

end Blueprint.SemanticTree
