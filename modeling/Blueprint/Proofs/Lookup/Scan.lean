import Blueprint.Proofs.Tree.Numbering
import Blueprint.Tree.Lookup

/-!
# Looking at one line is looking at every node

A lookup files the nodes of a tree under the lines that they touch, and for a position it looks at
one line only. Nothing is missed: a span that contains a position touches its line, however the
span is made (`Span.touchesLine_of_containsWithin`). What is found is put in order by depth, and
nodes of the same depth stay in document order.

The main statement compares the lookup with a scan of the whole table
(`Lookup.nodesAt_agrees_with_scan`): both find the same nodes, each once, the order of the answer is
fixed, and the deepest node is the last one of it.
-/

set_option autoImplicit false

namespace Blueprint

/-- A span that contains a position touches its line. -/
theorem Span.touchesLine_of_containsWithin {span : Span} {position : Position} {leeway : Nat}
    (inside : span.containsWithin position leeway = true) :
    span.touchesLine position.line = true := by
  obtain ⟨start, stop⟩ := span
  simp only [touchesLine, Bool.and_eq_true, decide_eq_true_eq]
  cases stop with
  | none =>
      simp only [containsWithin, Bool.and_eq_true, beq_iff_eq, decide_eq_true_eq] at inside
      exact ⟨Nat.le_of_eq inside.1.symm, Nat.le_of_eq inside.1⟩
  | some stop =>
      simp only [containsWithin] at inside
      split at inside
      · cases inside
      · next between =>
          simp only [Bool.or_eq_true, decide_eq_true_eq, not_or, Nat.not_lt] at between
          exact between

/-! ## What is filed under a line -/

namespace LineFile

theorem on_empty (line : Nat) : empty.on line = [] := by
  simp [on, empty]

theorem on_add (file : LineFile) (line id other : Nat) :
    (file.add line id).on other = file.on other ++ if line = other then [id] else [] := by
  by_cases same : line = other
  · subst same
    simp only [on, add, Std.TreeMap.getD_insert_self, Array.toList_push, if_true]
  · simp only [on, add, Std.TreeMap.getD_insert, Std.LawfulEqCmp.compare_eq_iff_eq, if_neg same,
      List.append_nil]

theorem on_addLines (file : LineFile) (id line count other : Nat) :
    (file.addLines id line count).on other =
      file.on other ++ if line ≤ other ∧ other < line + count then [id] else [] := by
  induction count generalizing file line with
  | zero =>
      rw [addLines, if_neg (by omega), List.append_nil]
  | succ count ih =>
      rw [addLines, ih, on_add, List.append_assoc]
      by_cases first : line = other
      · rw [if_pos first, if_neg (by omega), if_pos (by omega), List.append_nil]
      · rw [if_neg first, List.nil_append]
        congr 2
        exact propext ⟨fun later => by omega, fun within => by omega⟩

theorem on_addSpan (file : LineFile) (node : Node) (line : Nat) :
    (file.addSpan node).on line =
      file.on line ++ if node.span.touchesLine line = true then [node.id] else [] := by
  rw [addSpan, on_addLines]
  congr 2
  simp only [Span.touchesLine, Bool.and_eq_true, decide_eq_true_eq]
  exact propext ⟨fun within => by omega, fun touches => by omega⟩

/-- When each node is filed under a line or not, the line holds the nodes that were filed under it
in their given order. -/
theorem on_foldl {enter : LineFile → Node → LineFile} {line : Nat} {belongs : Node → Bool}
    (on_enter : ∀ file node,
      (enter file node).on line = file.on line ++ if belongs node = true then [node.id] else [])
    (nodes : List Node) (file : LineFile) :
    (nodes.foldl enter file).on line = file.on line ++ (nodes.filter belongs).map Node.id := by
  induction nodes generalizing file with
  | nil => exact (List.append_nil _).symm
  | cons node rest ih =>
      rw [List.foldl_cons, ih, on_enter, List.append_assoc, List.filter_cons]
      split
      · rfl
      · rfl

end LineFile

/-! ## Order by depth -/

/-- A node comes before another when it is less deep, or as deep and earlier in the document. -/
def Node.Before (left right : Node) : Prop :=
  left.depth < right.depth ∨ (left.depth = right.depth ∧ left.id < right.id)

theorem Node.Before.asymm {left right : Node} (before : left.Before right) :
    ¬right.Before left := by
  unfold Node.Before at *
  omega

instance : Std.Irrefl Node.Before := ⟨fun _ before => before.asymm before⟩

instance : Std.Antisymm Node.Before := ⟨fun _ _ before after => absurd after before.asymm⟩

namespace Lookup

variable {node : Node} {nodes sorted : List Node}

theorem insertByDepth_perm (node : Node) (sorted : List Node) :
    (insertByDepth node sorted).Perm (node :: sorted) := by
  induction sorted with
  | nil => exact .refl _
  | cons first rest ih =>
      rw [insertByDepth]
      split
      · exact (ih.cons first).trans (.swap node first rest)
      · exact .refl _

/-- A node that is later in the document than all others goes behind those that are as deep. -/
theorem pairwise_insertByDepth (ordered : sorted.Pairwise Node.Before)
    (latest : ∀ other ∈ sorted, other.id < node.id) :
    (insertByDepth node sorted).Pairwise Node.Before := by
  induction sorted with
  | nil => exact List.pairwise_singleton _ _
  | cons first rest ih =>
      obtain ⟨firstBefore, restOrdered⟩ := List.pairwise_cons.mp ordered
      obtain ⟨firstEarlier, restEarlier⟩ := List.forall_mem_cons.mp latest
      rw [insertByDepth]
      split
      · next notDeeper =>
          refine List.pairwise_cons.mpr ⟨fun other member => ?_, ih restOrdered restEarlier⟩
          rcases List.mem_cons.mp ((insertByDepth_perm node rest).mem_iff.mp member) with
            rfl | later
          · exact (Nat.lt_or_eq_of_le notDeeper).imp_right fun same => ⟨same, firstEarlier⟩
          · exact firstBefore other later
      · next deeper =>
          refine List.pairwise_cons.mpr ⟨fun other member => .inl ?_, ordered⟩
          rcases List.mem_cons.mp member with rfl | later
          · omega
          · rcases firstBefore other later with less | ⟨same, _⟩
            · omega
            · omega

theorem foldl_insertByDepth_perm (nodes sorted : List Node) :
    (nodes.foldl (fun sorted node => insertByDepth node sorted) sorted).Perm
      (nodes ++ sorted) := by
  induction nodes generalizing sorted with
  | nil => exact .refl _
  | cons node rest ih =>
      rw [List.foldl_cons]
      exact (ih _).trans (((insertByDepth_perm node sorted).append_left rest).trans
        List.perm_middle)

theorem sortByDepth_perm (nodes : List Node) : (sortByDepth nodes).Perm nodes := by
  simpa only [sortByDepth, List.append_nil] using foldl_insertByDepth_perm nodes []

theorem pairwise_foldl_insertByDepth (ordered : sorted.Pairwise Node.Before)
    (numbered : nodes.Pairwise fun left right => left.id < right.id)
    (latest : ∀ node ∈ nodes, ∀ other ∈ sorted, other.id < node.id) :
    (nodes.foldl (fun sorted node => insertByDepth node sorted) sorted).Pairwise Node.Before := by
  induction nodes generalizing sorted with
  | nil => exact ordered
  | cons node rest ih =>
      obtain ⟨nodeEarlier, restNumbered⟩ := List.pairwise_cons.mp numbered
      obtain ⟨nodeLatest, restLatest⟩ := List.forall_mem_cons.mp latest
      refine ih (pairwise_insertByDepth ordered nodeLatest) restNumbered ?_
      intro later member other inserted
      rcases List.mem_cons.mp ((insertByDepth_perm node sorted).mem_iff.mp inserted) with
        rfl | earlier
      · exact nodeEarlier later member
      · exact restLatest later member other earlier

/-- Nodes in document order are put in order by depth, equally deep ones in document order. -/
theorem pairwise_sortByDepth (numbered : nodes.Pairwise fun left right => left.id < right.id) :
    (sortByDepth nodes).Pairwise Node.Before :=
  pairwise_foldl_insertByDepth .nil numbered fun _ _ => List.forall_mem_nil _

end Lookup

/-! ## The nodes at a position -/

theorem Tree.pairwise_id_nodes (tree : Tree) :
    tree.nodes.toList.Pairwise fun left right => left.id < right.id := by
  have increasing : ((Draft.numberFrom none 0 0 tree.draft).map Node.id).Pairwise (· < ·) := by
    rw [Draft.map_id_numberFrom]
    exact List.pairwise_lt_range'
  rw [tree.nodes_eq, Draft.number_eq]
  exact List.pairwise_map.mp increasing

namespace Lookup

variable (tree : Tree) (position : Position) (leeway : Nat)

@[simp] theorem tree_build : (build tree).tree = tree := rfl

/-- Under a line are filed the nodes that touch it, in document order. -/
theorem touching_build_on (line : Nat) :
    (build tree).touching.on line =
      (tree.nodes.toList.filter fun node => node.span.touchesLine line).map Node.id := by
  rw [build, ← Array.foldl_toList, LineFile.on_foldl fun file node => file.on_addSpan node line,
    LineFile.on_empty, List.nil_append]

/-- The numbers of nodes of a tree lead back to them. -/
theorem filterMap_node?_map_id (nodes : List Node) (listed : ∀ node ∈ nodes, node ∈ tree.nodes) :
    (nodes.map Node.id).filterMap tree.node? = nodes := by
  induction nodes with
  | nil => rfl
  | cons node rest ih =>
      obtain ⟨here, later⟩ := List.forall_mem_cons.mp listed
      rw [List.map_cons, List.filterMap_cons, Tree.node?_id here, ih later]

/-- The nodes at a position are those of the whole table that contain it, put in order. -/
theorem nodesAt_build :
    (build tree).nodesAt position leeway =
      sortByDepth (tree.nodes.toList.filter fun node => node.containsWithin position leeway) := by
  rw [nodesAt, touching_build_on]
  have found := filterMap_node?_map_id tree
    (tree.nodes.toList.filter fun node => node.span.touchesLine position.line)
    fun node member => Array.mem_toList_iff.mp (List.mem_filter.mp member).1
  rw [tree_build, found, List.filter_filter]
  congr 2
  funext node
  rw [Bool.and_eq_left_iff_imp]
  exact Span.touchesLine_of_containsWithin

variable {tree position leeway} {node : Node}

theorem mem_nodesAt_build_iff :
    node ∈ (build tree).nodesAt position leeway ↔
      node ∈ tree.nodes ∧ node.containsWithin position leeway = true := by
  rw [nodesAt_build, (sortByDepth_perm _).mem_iff, List.mem_filter, Array.mem_toList_iff]

variable (tree position leeway)

theorem pairwise_nodesAt_build :
    ((build tree).nodesAt position leeway).Pairwise Node.Before := by
  rw [nodesAt_build]
  exact pairwise_sortByDepth ((tree.pairwise_id_nodes).filter _)

variable {tree position leeway}

/-- The deepest node at a position is the one that all other nodes at the position come before. -/
theorem deepestAt_build_eq_some_iff :
    (build tree).deepestAt position leeway = some node ↔
      node ∈ tree.nodes ∧ node.containsWithin position leeway = true ∧
        ∀ other ∈ tree.nodes, other.containsWithin position leeway = true →
          other = node ∨ other.Before node := by
  have ordered := pairwise_nodesAt_build tree position leeway
  rw [deepestAt]
  constructor
  · intro last
    obtain ⟨front, split⟩ := List.getLast?_eq_some_iff.mp last
    have member : node ∈ (build tree).nodesAt position leeway := by
      rw [split]
      exact List.mem_concat_self
    obtain ⟨listed, inside⟩ := mem_nodesAt_build_iff.mp member
    refine ⟨listed, inside, fun other otherListed otherInside => ?_⟩
    have found := mem_nodesAt_build_iff.mpr ⟨otherListed, otherInside⟩
    rw [split] at found ordered
    rcases List.mem_append.mp found with earlier | same
    · exact .inr ((List.pairwise_append.mp ordered).2.2 other earlier node List.mem_cons_self)
    · exact .inl (List.mem_singleton.mp same)
  · rintro ⟨listed, inside, greatest⟩
    have member := mem_nodesAt_build_iff.mpr ⟨listed, inside⟩
    obtain ⟨front, last, split⟩ : ∃ front last,
        (build tree).nodesAt position leeway = front ++ [last] :=
      ⟨_, _, (List.dropLast_concat_getLast (List.ne_nil_of_mem member)).symm⟩
    have lastMember : last ∈ (build tree).nodesAt position leeway := by
      rw [split]
      exact List.mem_concat_self
    obtain ⟨lastListed, lastInside⟩ := mem_nodesAt_build_iff.mp lastMember
    rw [split] at member ordered ⊢
    rw [List.getLast?_concat]
    rcases List.mem_append.mp member with earlier | same
    · have after := (List.pairwise_append.mp ordered).2.2 node earlier last List.mem_cons_self
      rcases greatest last lastListed lastInside with same | before
      · rw [same]
      · exact absurd after before.asymm
    · rw [List.mem_singleton.mp same]

theorem deepestAt_build_eq_none_iff :
    (build tree).deepestAt position leeway = none ↔
      ∀ node ∈ tree.nodes, node.containsWithin position leeway = false := by
  rw [deepestAt, List.getLast?_eq_none_iff, List.eq_nil_iff_forall_not_mem]
  simp only [mem_nodesAt_build_iff, not_and, Bool.not_eq_true]

/-- **Looking at one line finds what a scan of the whole table finds.** The nodes at a position are
the nodes of the tree that contain it, each once, by increasing depth and in document order where
they are equally deep. The deepest of them is the last one, and there is none just when no node
contains the position. -/
theorem nodesAt_agrees_with_scan (tree : Tree) (position : Position) (leeway : Nat) :
    ((build tree).nodesAt position leeway).Perm
        (tree.nodes.toList.filter fun node => node.containsWithin position leeway) ∧
      ((build tree).nodesAt position leeway).Pairwise Node.Before ∧
      (build tree).deepestAt position leeway =
        ((build tree).nodesAt position leeway).getLast? ∧
      (∀ node, (build tree).deepestAt position leeway = some node ↔
        node ∈ tree.nodes ∧ node.containsWithin position leeway = true ∧
          ∀ other ∈ tree.nodes, other.containsWithin position leeway = true →
            other = node ∨ other.Before node) ∧
      ((build tree).deepestAt position leeway = none ↔
        ∀ node ∈ tree.nodes, node.containsWithin position leeway = false) := by
  refine ⟨?_, pairwise_nodesAt_build tree position leeway, rfl,
    fun node => deepestAt_build_eq_some_iff, deepestAt_build_eq_none_iff⟩
  rw [nodesAt_build]
  exact sortByDepth_perm _

end Lookup

end Blueprint
