import Mathlib.Order.Bounds.Basic
import Blueprint.Proofs.Lookup.Scan
import Blueprint.Proofs.Tree.Lineage

/-!
# Places told by indentation

A cursor on a line of white space belongs to the value of some entry above it. Of the lines above it
on which an entry begins, the nearest one counts; of the entries on that line, the last of the
deepest; and of that entry and its ancestors, the first one that is anchored left of the cursor
(`Tree.IsPlaceAt`). The root takes what is left over, so the search is over after one line.

A lookup goes through the lines from below and keeps to those that some node touches. It finds the
place so described (`Lookup.enclosing_eq_iff_isPlaceAt`), and as long as no entry begins behind the
end of its node, keeping to these lines leaves nothing out (`Lookup.searched_eq_entryLines`).

A cursor further to the right has the same entries above it and passes fewer of the ancestors by, so
that its place is the same or further down (`Lookup.enclosing_mem_lineage`).
-/

set_option autoImplicit false

namespace Blueprint

/-! ## The place of a cursor -/

namespace Tree

/-- A node other than the root, with its entry beginning on a line. -/
def BeginsOn (tree : Tree) (line : Nat) (node : Node) : Prop :=
  node ∈ tree.nodes ∧ node.isRoot = false ∧ node.entryStart.line = line

/-- The lines above a line on which entries begin. -/
def entryLines (tree : Tree) (line : Nat) : Set Nat :=
  {above | 1 ≤ above ∧ above < line ∧ ∃ node, tree.BeginsOn above node}

/-- The nodes other than the root with entries beginning on a line, in document order. -/
def entriesOn (tree : Tree) (line : Nat) : List Node :=
  tree.nodes.toList.filter fun node => !node.isRoot && node.entryStart.line == line

/-- Of the nodes with entries beginning on a line, the last in the document of the deepest. -/
structure IsLastDeepest (tree : Tree) (line : Nat) (node : Node) : Prop where
  begins : tree.BeginsOn line node
  deepest : ∀ other, tree.BeginsOn line other → other.depth ≤ node.depth
  last : ∀ other, tree.BeginsOn line other → other.depth = node.depth → other.id ≤ node.id

/-- Whether a cursor at a column may stand in the value of a node. -/
def admits (tree : Tree) (column : Nat) (node : Node) : Bool :=
  node.isRoot || tree.anchorColumn node < column

/-- The node that a cursor at a column belongs to, when entries begin on the given lines above. -/
inductive IsPlaceAt (tree : Tree) (lines : Set Nat) (column : Nat) : Node → Prop
  /-- Nothing begins above the cursor. -/
  | root (nothing : lines = ∅) : tree.IsPlaceAt lines column tree.root
  /-- The nearest entry, or the first of its ancestors that admits the cursor. -/
  | entry {line : Nat} {start node : Node} (nearest : IsGreatest lines line)
      (deepest : tree.IsLastDeepest line start)
      (first : (tree.lineage start).find? (tree.admits column) = some node) :
      tree.IsPlaceAt lines column node

variable {tree : Tree} {lines : Set Nat} {line column : Nat} {node other start : Node}

theorem mem_entriesOn_iff : node ∈ tree.entriesOn line ↔ tree.BeginsOn line node := by
  simp [entriesOn, BeginsOn]

theorem IsLastDeepest.unique (left : tree.IsLastDeepest line node)
    (right : tree.IsLastDeepest line other) : node = other := by
  have same : node.depth = other.depth :=
    Nat.le_antisymm (right.deepest node left.begins) (left.deepest other right.begins)
  apply eq_of_id_eq left.begins.1 right.begins.1
  exact Nat.le_antisymm (right.last node left.begins same) (left.last other right.begins same.symm)

/-- A cursor has one place at most. -/
theorem IsPlaceAt.unique (left : tree.IsPlaceAt lines column node)
    (right : tree.IsPlaceAt lines column other) : node = other := by
  cases left with
  | root nothing =>
      cases right with
      | root _ => rfl
      | entry nearest _ _ => exact absurd nearest.1 (nothing ▸ Set.notMem_empty _)
  | entry nearest deepest first =>
      cases right with
      | root nothing => exact absurd nearest.1 (nothing ▸ Set.notMem_empty _)
      | entry nearest' deepest' first' =>
          obtain rfl := nearest.unique nearest'
          obtain rfl := deepest.unique deepest'
          exact Option.some.inj (first.symm.trans first')

/-- Each lineage has a node that admits the cursor, since its last one is the root. -/
theorem exists_find?_admits (member : start ∈ tree.nodes) (column : Nat) :
    ∃ node, (tree.lineage start).find? (tree.admits column) = some node := by
  rw [← Option.isSome_iff_exists, List.find?_isSome]
  exact ⟨tree.root, root_mem_lineage start member, rfl⟩

end Tree

/-! ## The entries that begin on a line -/

theorem LineFile.on_addEntry (file : LineFile) (node : Node) (line : Nat) :
    (file.addEntry node).on line =
      file.on line ++
        if (!node.isRoot && node.entryStart.line == line) = true then [node.id] else [] := by
  rw [addEntry]
  cases node.isRoot with
  | true => exact (List.append_nil _).symm
  | false =>
      rw [if_neg Bool.false_ne_true, on_add]
      congr 2
      simp

theorem Node.Before.trans {left middle right : Node} (first : left.Before middle)
    (second : middle.Before right) : left.Before right := by
  unfold Node.Before at *
  omega

namespace Lookup

/-- Of nodes in document order, the one kept is behind all others in the order by depth. -/
theorem exists_foldl_deeper (nodes : List Node) (kept : Node)
    (numbered : (kept :: nodes).Pairwise fun left right => left.id < right.id) :
    ∃ best ∈ kept :: nodes, nodes.foldl deeper (some kept) = some best ∧
      ∀ other ∈ kept :: nodes, other = best ∨ other.Before best := by
  induction nodes generalizing kept with
  | nil =>
      refine ⟨kept, List.mem_cons_self, rfl, ?_⟩
      exact List.forall_mem_singleton.mpr (.inl rfl)
  | cons node rest ih =>
      obtain ⟨keptFirst, restNumbered⟩ := List.pairwise_cons.mp numbered
      obtain ⟨keptEarlier, keptFirst⟩ := List.forall_mem_cons.mp keptFirst
      rw [List.foldl_cons, deeper]
      split
      · next notDeeper =>
          obtain ⟨best, member, found, greatest⟩ := ih node restNumbered
          refine ⟨best, List.mem_cons_of_mem _ member, found, ?_⟩
          refine List.forall_mem_cons.mpr ⟨.inr ?_, greatest⟩
          have before : kept.Before node :=
            (Nat.lt_or_eq_of_le notDeeper).imp_right fun same => ⟨same, keptEarlier⟩
          rcases greatest node List.mem_cons_self with rfl | further
          · exact before
          · exact before.trans further
      · next deeper =>
          obtain ⟨best, member, found, greatest⟩ :=
            ih kept (List.pairwise_cons.mpr ⟨keptFirst, (List.pairwise_cons.mp restNumbered).2⟩)
          obtain ⟨keptBefore, restBefore⟩ := List.forall_mem_cons.mp greatest
          refine ⟨best, ?_, found, ?_⟩
          · rcases List.mem_cons.mp member with rfl | later
            · exact List.mem_cons_self
            · exact List.mem_cons_of_mem _ (List.mem_cons_of_mem _ later)
          · refine List.forall_mem_cons.mpr
              ⟨keptBefore, List.forall_mem_cons.mpr ⟨.inr ?_, restBefore⟩⟩
            have before : node.Before kept := .inl (Nat.lt_of_not_le deeper)
            rcases keptBefore with rfl | further
            · exact before
            · exact before.trans further

theorem mem_of_foldl_deeper {nodes : List Node} {kept : Option Node} {node : Node}
    (found : nodes.foldl deeper kept = some node) : kept = some node ∨ node ∈ nodes := by
  induction nodes generalizing kept with
  | nil => exact .inl found
  | cons first rest ih =>
      rcases ih found with here | later
      · cases kept with
        | none => exact .inr (Option.some.inj here ▸ List.mem_cons_self)
        | some best =>
            rw [deeper] at here
            split at here
            · exact .inr (Option.some.inj here ▸ List.mem_cons_self)
            · exact .inl here
      · exact .inr (List.mem_cons_of_mem _ later)

theorem beginning_build_on (tree : Tree) (line : Nat) :
    (build tree).beginning.on line = (tree.entriesOn line).map Node.id := by
  have filed : (build tree).beginning = tree.nodes.toList.foldl LineFile.addEntry .empty :=
    (Array.foldl_toList _).symm
  rw [filed, LineFile.on_foldl fun file node => file.on_addEntry node line, LineFile.on_empty,
    List.nil_append, Tree.entriesOn]

variable {tree : Tree} {line column : Nat} {node : Node}

theorem deepestBeginningOn_build (tree : Tree) (line : Nat) :
    (build tree).deepestBeginningOn line = (tree.entriesOn line).foldl deeper none := by
  have listed : ∀ node ∈ tree.entriesOn line, node ∈ tree.nodes :=
    fun node member => (Tree.mem_entriesOn_iff.mp member).1
  rw [deepestBeginningOn, beginning_build_on, tree_build]
  exact congrArg _ (filterMap_node?_map_id tree _ listed)

theorem deepestBeginningOn_build_eq_none_iff :
    (build tree).deepestBeginningOn line = none ↔ ∀ node, ¬tree.BeginsOn line node := by
  rw [deepestBeginningOn_build]
  have numbered : (tree.entriesOn line).Pairwise fun left right => left.id < right.id :=
    (tree.pairwise_id_nodes).filter _
  constructor
  · intro nothing node begins
    have member := Tree.mem_entriesOn_iff.mpr begins
    cases entries : tree.entriesOn line with
    | nil =>
        rw [entries] at member
        cases member
    | cons first rest =>
        rw [entries] at numbered nothing
        obtain ⟨best, -, found, -⟩ := exists_foldl_deeper rest first numbered
        exact absurd (found.symm.trans nothing) (Option.some_ne_none best)
  · intro nothing
    have empty : tree.entriesOn line = [] := List.eq_nil_iff_forall_not_mem.mpr fun node member =>
      nothing node (Tree.mem_entriesOn_iff.mp member)
    rw [empty]
    rfl

theorem isLastDeepest_of_deepestBeginningOn
    (found : (build tree).deepestBeginningOn line = some node) : tree.IsLastDeepest line node := by
  rw [deepestBeginningOn_build] at found
  have numbered : (tree.entriesOn line).Pairwise fun left right => left.id < right.id :=
    (tree.pairwise_id_nodes).filter _
  have greatest : node ∈ tree.entriesOn line ∧
      ∀ other ∈ tree.entriesOn line, other = node ∨ other.Before node := by
    cases entries : tree.entriesOn line with
    | nil =>
        rw [entries] at found
        cases found
    | cons first rest =>
        rw [entries] at numbered found
        obtain ⟨best, member, kept, greatest⟩ := exists_foldl_deeper rest first numbered
        obtain rfl := Option.some.inj (found.symm.trans kept)
        exact ⟨member, greatest⟩
  constructor
  · exact Tree.mem_entriesOn_iff.mp greatest.1
  · intro other begins
    rcases greatest.2 other (Tree.mem_entriesOn_iff.mpr begins) with rfl | before
    · exact Nat.le_refl _
    · unfold Node.Before at before
      omega
  · intro other begins same
    rcases greatest.2 other (Tree.mem_entriesOn_iff.mpr begins) with rfl | before
    · exact Nat.le_refl _
    · unfold Node.Before at before
      omega

/-! ## The nearest line -/

/-- Going up from a line stops at the first line on which an entry begins. -/
theorem nearestBeginning_eq_some {lookup : Lookup} {limit : Nat} {start : Node}
    (found : lookup.nearestBeginning limit = some start) :
    ∃ line, 1 ≤ line ∧ line ≤ limit ∧ lookup.deepestBeginningOn line = some start ∧
      ∀ later, line < later → later ≤ limit → lookup.deepestBeginningOn later = none := by
  induction limit with
  | zero => cases found
  | succ limit ih =>
      rw [nearestBeginning] at found
      split at found
      · next node here =>
          obtain rfl := Option.some.inj found
          refine ⟨limit + 1, Nat.le_add_left 1 limit, Nat.le_refl _, here, ?_⟩
          intro later after within
          omega
      · next nothing =>
          obtain ⟨line, positive, within, here, none⟩ := ih found
          refine ⟨line, positive, Nat.le_succ_of_le within, here, ?_⟩
          intro later after upTo
          rcases Nat.lt_or_eq_of_le upTo with lower | rfl
          · exact none later after (Nat.le_of_lt_succ lower)
          · exact nothing

theorem nearestBeginning_eq_none {lookup : Lookup} {limit : Nat}
    (nothing : lookup.nearestBeginning limit = none) :
    ∀ line, 1 ≤ line → line ≤ limit → lookup.deepestBeginningOn line = none := by
  induction limit with
  | zero =>
      intro line positive within
      omega
  | succ limit ih =>
      rw [nearestBeginning] at nothing
      split at nothing
      · cases nothing
      · next here =>
          intro line positive within
          rcases Nat.lt_or_eq_of_le within with lower | rfl
          · exact ih nothing line positive (Nat.le_of_lt_succ lower)
          · exact here

/-- The spans that touch a line have no part in the search. -/
theorem nearestBeginning_withTouching (lookup : Lookup) (touching : LineFile) (limit : Nat) :
    { lookup with touching }.nearestBeginning limit = lookup.nearestBeginning limit := by
  induction limit with
  | zero => rfl
  | succ limit ih =>
      rw [nearestBeginning, nearestBeginning, ih]
      rfl

theorem mem_nodes_of_nearestBeginning {lookup : Lookup} {limit : Nat} {start : Node}
    (found : lookup.nearestBeginning limit = some start) : start ∈ lookup.tree.nodes := by
  obtain ⟨line, -, -, here, -⟩ := nearestBeginning_eq_some found
  rcases mem_of_foldl_deeper here with absent | member
  · cases absent
  · obtain ⟨id, -, listed⟩ := List.mem_filterMap.mp member
    exact Tree.mem_nodes_of_node? listed

/-! ## Going up from the nearest entry -/

/-- The entry from which the search goes up has a node in its lineage that ends the search. -/
theorem find?_admits_enclosing {lookup : Lookup} {line : Nat} {start : Node}
    (found : lookup.nearestBeginning (min (line - 1) lookup.lastLine) = some start)
    (column : Nat) :
    (lookup.tree.lineage start).find? (lookup.tree.admits column) =
      some (lookup.enclosing line column) := by
  obtain ⟨node, first⟩ := Tree.exists_find?_admits (mem_nodes_of_nearestBeginning found) column
  have answer : lookup.enclosing line column =
      ((lookup.tree.lineage start).find? (lookup.tree.admits column)).getD lookup.tree.root := by
    rw [enclosing, found]
    rfl
  rw [answer, first, Option.getD_some]

theorem enclosing_eq_root {lookup : Lookup} {line : Nat}
    (nothing : lookup.nearestBeginning (min (line - 1) lookup.lastLine) = none) (column : Nat) :
    lookup.enclosing line column = lookup.tree.root := by
  rw [enclosing, nothing]

theorem enclosing_mem_nodes (lookup : Lookup) (line column : Nat) :
    lookup.enclosing line column ∈ lookup.tree.nodes := by
  cases found : lookup.nearestBeginning (min (line - 1) lookup.lastLine) with
  | none =>
      rw [enclosing_eq_root found]
      exact lookup.tree.root_mem_nodes
  | some start =>
      apply Tree.mem_nodes_of_mem_lineage start (mem_nodes_of_nearestBeginning found)
      exact List.mem_of_find?_eq_some (find?_admits_enclosing found column)

theorem enclosing_withTouching (lookup : Lookup) (touching : LineFile) (line column : Nat) :
    { lookup with touching }.enclosing line column = lookup.enclosing line column := by
  rw [enclosing, enclosing, nearestBeginning_withTouching]

/-- Going further to the right leads to the same node or below it. -/
theorem enclosing_mem_lineage (lookup : Lookup) (line : Nat) {near far : Nat}
    (further : near ≤ far) :
    lookup.enclosing line near ∈ lookup.tree.lineage (lookup.enclosing line far) := by
  cases found : lookup.nearestBeginning (min (line - 1) lookup.lastLine) with
  | none =>
      rw [enclosing_eq_root found, enclosing_eq_root found]
      exact Tree.mem_lineage_self _ _
  | some start =>
      have nearFirst := find?_admits_enclosing found near
      -- What stands before the far place in the lineage does not admit the near column either.
      obtain ⟨-, lower, upper, split, passed⟩ :=
        List.find?_eq_some_iff_append.mp (find?_admits_enclosing found far)
      have member := mem_nodes_of_nearestBeginning found
      rw [Tree.lineage_eq_of_append start member lower _ upper split]
      have refused : lower.find? (lookup.tree.admits near) = none := by
        rw [List.find?_eq_none]
        intro node below admitted
        have farRefused := passed node below
        simp only [Tree.admits, Bool.not_eq_true', Bool.or_eq_false_iff, decide_eq_false_iff_not,
          Bool.or_eq_true, decide_eq_true_eq] at farRefused admitted
        rcases admitted with isRoot | left
        · exact Bool.false_ne_true (farRefused.1.symm.trans isRoot)
        · omega
      rw [split, List.find?_append, refused, Option.none_or] at nearFirst
      exact List.mem_of_find?_eq_some nearFirst

/-! ## The lines that are searched -/

/-- The lines that are searched, counted up from the cursor or from the last line of all nodes. -/
theorem mem_searched_iff {above : Nat} :
    above ∈ {above ∈ tree.entryLines line | above ≤ (build tree).lastLine} ↔
      1 ≤ above ∧ above ≤ min (line - 1) (build tree).lastLine ∧
        ∃ node, tree.BeginsOn above node := by
  rw [Nat.le_min]
  constructor
  · rintro ⟨⟨positive, lower, begins⟩, bounded⟩
    exact ⟨positive, ⟨by omega, bounded⟩, begins⟩
  · rintro ⟨positive, ⟨lower, bounded⟩, begins⟩
    exact ⟨⟨positive, by omega, begins⟩, bounded⟩

/-- What the search finds is the place among the lines that are searched. -/
theorem isPlaceAt_enclosing (tree : Tree) (line column : Nat) :
    tree.IsPlaceAt {above ∈ tree.entryLines line | above ≤ (build tree).lastLine} column
      ((build tree).enclosing line column) := by
  cases found : (build tree).nearestBeginning (min (line - 1) (build tree).lastLine) with
  | none =>
      rw [enclosing_eq_root found]
      apply Tree.IsPlaceAt.root
      rw [Set.eq_empty_iff_forall_notMem]
      intro above listed
      obtain ⟨positive, within, node, begins⟩ := mem_searched_iff.mp listed
      exact deepestBeginningOn_build_eq_none_iff.mp
        (nearestBeginning_eq_none found above positive within) node begins
  | some start =>
      obtain ⟨nearest, positive, within, here, nothing⟩ := nearestBeginning_eq_some found
      have deepest := isLastDeepest_of_deepestBeginningOn here
      have greatest :
          IsGreatest {above ∈ tree.entryLines line | above ≤ (build tree).lastLine} nearest := by
        constructor
        · exact mem_searched_iff.mpr ⟨positive, within, start, deepest.begins⟩
        · intro above listed
          obtain ⟨-, upTo, node, begins⟩ := mem_searched_iff.mp listed
          refine Nat.le_of_not_lt fun later => ?_
          exact deepestBeginningOn_build_eq_none_iff.mp (nothing above later upTo) node begins
      exact .entry greatest deepest (find?_admits_enclosing found column)

theorem lastLine_le_lastLine_build (member : node ∈ tree.nodes) :
    node.span.lastLine ≤ (build tree).lastLine := by
  have bounds : ∀ (nodes : List Node) (last : Nat),
      last ≤ nodes.foldl (fun last node => max last node.span.lastLine) last ∧
        ∀ node ∈ nodes, node.span.lastLine ≤
          nodes.foldl (fun last node => max last node.span.lastLine) last := by
    intro nodes
    induction nodes with
    | nil => exact fun last => ⟨Nat.le_refl _, List.forall_mem_nil _⟩
    | cons first rest ih =>
        intro last
        obtain ⟨least, later⟩ := ih (max last first.span.lastLine)
        refine ⟨Nat.le_trans (Nat.le_max_left _ _) least, List.forall_mem_cons.mpr ⟨?_, later⟩⟩
        exact Nat.le_trans (Nat.le_max_right _ _) least
  have folded : (build tree).lastLine =
      tree.nodes.toList.foldl (fun last node => max last node.span.lastLine) 0 :=
    (Array.foldl_toList _).symm
  rw [folded]
  exact (bounds _ 0).2 node (Array.mem_toList_iff.mpr member)

/-- If no entry begins behind the end of its node, all lines with entries are searched. -/
theorem searched_eq_entryLines
    (within : ∀ node ∈ tree.nodes, node.entryStart.line ≤ node.span.lastLine) (line : Nat) :
    {above ∈ tree.entryLines line | above ≤ (build tree).lastLine} = tree.entryLines line := by
  ext above
  constructor
  · exact And.left
  · intro listed
    refine ⟨listed, ?_⟩
    obtain ⟨-, -, node, member, -, begins⟩ := listed
    rw [← begins]
    exact Nat.le_trans (within node member) (lastLine_le_lastLine_build member)

/-- **The search by indentation finds the place of the cursor**, and nothing else. It keeps to the
lines up to the last one that a node touches, which changes no place if every entry begins on or
before the last line of its node. -/
theorem enclosing_eq_iff_isPlaceAt (tree : Tree) (line column : Nat) (node : Node) :
    ((build tree).enclosing line column = node ↔
      tree.IsPlaceAt {above ∈ tree.entryLines line | above ≤ (build tree).lastLine} column node) ∧
    ((∀ other ∈ tree.nodes, other.entryStart.line ≤ other.span.lastLine) →
      ((build tree).enclosing line column = node ↔
        tree.IsPlaceAt (tree.entryLines line) column node)) := by
  have bounded : (build tree).enclosing line column = node ↔
      tree.IsPlaceAt {above ∈ tree.entryLines line | above ≤ (build tree).lastLine} column
        node := by
    constructor
    · rintro rfl
      exact isPlaceAt_enclosing tree line column
    · exact fun place => (isPlaceAt_enclosing tree line column).unique place
  refine ⟨bounded, fun within => ?_⟩
  rwa [searched_eq_entryLines within] at bounded

end Lookup

/-! ### A cursor below two entries -/

namespace Lookup.TwoLevels

/-- The entry `orders` on the first line, its entry `tags` on the second. -/
def tree : Tree :=
  .ofDraft (.node (.ofKind .document (.closed ⟨1, 1⟩ ⟨4, 1⟩))
    [.node (.ofKind .mapping (.closed ⟨1, 1⟩ ⟨2, 10⟩))
      [(Draft.node (.ofKind .mapping (.closed ⟨2, 3⟩ ⟨2, 10⟩))
        [(Draft.word "x" 2 9).under "tags" 2 3]).under "orders" 1 1]]) false

/-- However far down, a cursor below `tags` is in `orders`. -/
theorem enclosing_eq_iff_isPlaceAt_twoLevels :
    (∀ other ∈ tree.nodes, other.entryStart.line ≤ other.span.lastLine) ∧
      ((build tree).enclosing 4294967295 3).role = .field "orders" ∧
      tree.IsPlaceAt (tree.entryLines 4294967295) 3 ((build tree).enclosing 4294967295 3) := by
  have within : ∀ other ∈ tree.nodes, other.entryStart.line ≤ other.span.lastLine := by
    decide +kernel
  refine ⟨within, by decide +kernel, ?_⟩
  exact ((enclosing_eq_iff_isPlaceAt tree 4294967295 3 _).2 within).mp rfl

end Lookup.TwoLevels

end Blueprint
