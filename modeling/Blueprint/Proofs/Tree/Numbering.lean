import Blueprint.Tree.Basic

/-!
# The table of a draft's nodes

The table is filled from a list of drafts that wait, and a node is noted at its parent when it is
added. What results is the list of the nodes in document order (`number_eq`), which follows the
draft (`numberFrom`), and a node's number is its place in the list.

Each node's own draft is listed as one block from the node on (`isPrefix_drop_numberFrom`); this is
what ties the links of the table to the draft. The numbers that a node keeps for its children lead
to the nodes of the drafts below it (`Tree.childrenOf_eq`), every node but the root is among the
children of its parent (`Tree.mem_childrenOf_of_parent?`), and the next sibling is the next child
of the same parent (`Tree.exists_adjacent_of_nextSibling?`, `Tree.nextSibling?_of_adjacent`). The
ancestors of a node are found by going from parent to parent (`Tree.ancestors_eq_cons`).

A draft that is written out has its strings and keys on one line each (`Draft.word`, `Draft.under`).
-/

set_option autoImplicit false

namespace Blueprint

namespace Draft

/-! ## Lengths and numbers -/

mutual
/-- The nodes of a draft numbered from `next` on, in document order. -/
def numberFrom (parent : Option Nat) (depth next : Nat) : Draft → List Node
  | node entry children =>
    toNode (node entry children) parent depth next ::
      numberAllFrom next (depth + 1) (next + 1) children

/-- The nodes of sibling drafts numbered from `next` on, in document order. -/
def numberAllFrom (parent depth next : Nat) : List Draft → List Node
  | [] => []
  | draft :: rest =>
    numberFrom (some parent) depth next draft ++
      numberAllFrom parent depth (next + draft.size) rest
end

mutual
theorem length_numberFrom : ∀ (draft : Draft) (parent : Option Nat) (depth next : Nat),
    (numberFrom parent depth next draft).length = draft.size
  | .node entry children, parent, depth, next => by
      rw [numberFrom, List.length_cons, length_numberAllFrom children, size]

theorem length_numberAllFrom : ∀ (drafts : List Draft) (parent depth next : Nat),
    (numberAllFrom parent depth next drafts).length = sizeAll drafts
  | [], _, _, _ => rfl
  | draft :: rest, parent, depth, next => by
      rw [numberAllFrom, List.length_append, length_numberFrom draft, length_numberAllFrom rest,
        sizeAll]
end

/-! ## Filling the table -/

variable {nodes : Array Node}

@[simp] theorem size_noteChildren (nodes : Array Node) (ids : List Nat) (parent : Option Nat) :
    (noteChildren nodes ids parent).size = nodes.size := by
  cases parent with
  | none => rfl
  | some parent => rw [noteChildren, Array.size_modify]

theorem noteChildren_nil (nodes : Array Node) (parent : Option Nat) :
    noteChildren nodes [] parent = nodes := by
  cases parent with
  | none => rfl
  | some parent =>
      apply Array.ext
      · rw [size_noteChildren]
      · intro place _ _
        simp only [noteChildren, List.append_nil, Array.getElem_modify, ite_self]

theorem noteChildren_noteChildren (nodes : Array Node) (first later : List Nat)
    (parent : Option Nat) :
    noteChildren (noteChildren nodes first parent) later parent =
      noteChildren nodes (first ++ later) parent := by
  cases parent with
  | none => rfl
  | some parent =>
      apply Array.ext
      · simp only [size_noteChildren]
      · intro place _ _
        simp only [noteChildren, Array.getElem_modify]
        split <;> simp

/-- What is noted at a node of the table leaves alone what stands behind the table. -/
theorem noteChildren_append (more : Array Node) (ids : List Nat) {parent : Option Nat}
    (listed : ∀ above ∈ parent, above < nodes.size) :
    noteChildren (nodes ++ more) ids parent = noteChildren nodes ids parent ++ more := by
  cases parent with
  | none => rfl
  | some parent =>
      have within := listed parent rfl
      apply Array.ext
      · simp only [size_noteChildren, Array.size_append]
      · intro place _ _
        simp only [noteChildren, Array.getElem_modify, Array.getElem_append, Array.size_modify]
        by_cases inside : place < nodes.size
        · rw [dif_pos inside, dif_pos inside]
        · rw [dif_neg inside, dif_neg inside, if_neg (by omega)]

/-- What is noted at the node behind the table. -/
theorem noteChildren_push {fresh : Node} {ids : List Nat} {last : Nat}
    (behind : nodes.size = last) :
    noteChildren (nodes.push fresh) ids (some last) =
      nodes.push { fresh with children := fresh.children ++ ids } := by
  subst behind
  apply Array.ext
  · simp only [size_noteChildren, Array.size_push]
  · intro place within _
    rw [size_noteChildren, Array.size_push] at within
    simp only [noteChildren, Array.getElem_modify, Array.getElem_push]
    by_cases inside : place < nodes.size
    · rw [dif_pos inside, dif_pos inside, if_neg (by omega)]
    · rw [dif_neg inside, dif_neg inside, if_pos (by omega)]

mutual
/-- A draft that waits first is numbered as a block, and noted at its parent. -/
theorem fill_cons : ∀ (draft : Draft) (nodes : Array Node) (parent : Option Nat) (depth : Nat)
    (rest : List Waiting), (∀ above ∈ parent, above < nodes.size) →
      fill nodes (⟨draft, parent, depth⟩ :: rest) =
        fill (noteChildren nodes [nodes.size] parent ++
          (numberFrom parent depth nodes.size draft).toArray) rest
  | .node entry children, nodes, parent, depth, rest, listed => by
      rw [fill, Array.push_eq_append, noteChildren_append _ _ listed, ← Array.push_eq_append,
        fill_waitBelow children _ nodes.size (depth + 1) rest (by simp)]
      rw [Array.size_push, size_noteChildren, noteChildren_push (size_noteChildren ..), numberFrom,
        List.toArray_cons, Array.push_eq_append, Array.append_assoc]
      rfl

/-- Sibling drafts that wait first are numbered one block after the other, and all of them are noted
at their parent. -/
theorem fill_waitBelow : ∀ (drafts : List Draft) (nodes : Array Node) (parent depth : Nat)
    (rest : List Waiting), parent < nodes.size →
      fill nodes (waitBelow parent depth drafts ++ rest) =
        fill (noteChildren nodes (siblingIds nodes.size drafts) (some parent) ++
          (numberAllFrom parent depth nodes.size drafts).toArray) rest
  | [], nodes, parent, depth, rest, _ => by
      rw [siblingIds, noteChildren_nil, numberAllFrom, Array.append_empty]
      rfl
  | draft :: later, nodes, parent, depth, rest, listed => by
      have size : (noteChildren nodes [nodes.size] (some parent) ++
          (numberFrom (some parent) depth nodes.size draft).toArray).size =
            nodes.size + draft.size := by
        simp only [Array.size_append, size_noteChildren, List.size_toArray, length_numberFrom]
      have above : ∀ place ∈ some parent, place < nodes.size := by
        rintro place ⟨⟩
        exact listed
      have noted : ∀ place ∈ some parent,
          place < (noteChildren nodes [nodes.size] (some parent)).size := by
        simpa using listed
      calc fill nodes (⟨draft, some parent, depth⟩ :: (waitBelow parent depth later ++ rest))
        _ = fill (noteChildren nodes [nodes.size] (some parent) ++
              (numberFrom (some parent) depth nodes.size draft).toArray)
              (waitBelow parent depth later ++ rest) :=
            fill_cons draft nodes (some parent) depth _ above
        _ = _ := by
            rw [fill_waitBelow later _ parent depth rest (by omega), size,
              noteChildren_append _ _ noted, noteChildren_noteChildren, Array.append_assoc,
              siblingIds, numberAllFrom, ← List.append_toArray]
            rfl
end

/-- **The table is the list of the numbered nodes.** -/
theorem number_eq (draft : Draft) : draft.number = (numberFrom none 0 0 draft).toArray := by
  rw [number, fill_cons draft #[] none 0 [] (by simp), fill]
  simp [noteChildren]

/-! ## Numbers are places -/

theorem numberFrom_eq_cons (draft : Draft) (parent : Option Nat) (depth next : Nat) :
    numberFrom parent depth next draft =
      draft.toNode parent depth next ::
        numberAllFrom next (depth + 1) (next + 1) draft.children := by
  cases draft with
  | node entry children => rw [numberFrom, children_node]

mutual
/-- A node's number is its place in the list, counted from the first number. -/
theorem id_of_getElem?_numberFrom : ∀ (draft : Draft) (parent : Option Nat)
    (depth next place : Nat) {node : Node},
    (numberFrom parent depth next draft)[place]? = some node → node.id = next + place
  | .node entry children, parent, depth, next, 0, _, found => by
      rw [numberFrom, List.getElem?_cons_zero] at found
      obtain rfl := Option.some.inj found
      rfl
  | .node entry children, parent, depth, next, place + 1, _, found => by
      rw [numberFrom, List.getElem?_cons_succ] at found
      rw [id_of_getElem?_numberAllFrom children _ _ _ place found]
      omega

theorem id_of_getElem?_numberAllFrom : ∀ (drafts : List Draft) (parent depth next place : Nat)
    {node : Node},
    (numberAllFrom parent depth next drafts)[place]? = some node → node.id = next + place
  | [], _, _, _, _, _, found => by
      rw [numberAllFrom, List.getElem?_nil] at found
      cases found
  | draft :: rest, parent, depth, next, place, _, found => by
      have length := length_numberFrom draft (some parent) depth next
      rw [numberAllFrom] at found
      by_cases within : place < draft.size
      · rw [List.getElem?_append_left (by omega)] at found
        exact id_of_getElem?_numberFrom draft _ _ _ place found
      · rw [List.getElem?_append_right (by omega), length] at found
        rw [id_of_getElem?_numberAllFrom rest _ _ _ _ found]
        omega
end

theorem map_id_numberFrom (draft : Draft) (parent : Option Nat) (depth next : Nat) :
    (numberFrom parent depth next draft).map Node.id = List.range' next draft.size := by
  apply List.ext_getElem?
  intro place
  rw [List.getElem?_map]
  cases found : (numberFrom parent depth next draft)[place]? with
  | none =>
      rw [List.getElem?_eq_none_iff, length_numberFrom] at found
      rw [Option.map_none, eq_comm, List.getElem?_eq_none_iff, List.length_range']
      exact found
  | some node =>
      have within : place < draft.size := by
        rw [← length_numberFrom draft parent depth next]
        exact (List.getElem?_eq_some_iff.mp found).1
      rw [Option.map_some, id_of_getElem?_numberFrom draft _ _ _ _ found,
        List.getElem?_range' within, Nat.one_mul]

/-! ## A node's own draft is one block of the list -/

mutual
theorem isPrefix_drop_numberFrom : ∀ (draft : Draft) (parent : Option Nat)
    (depth next place : Nat) {node : Node},
    (numberFrom parent depth next draft)[place]? = some node →
      numberFrom node.parent node.depth node.id node.draft <+:
        (numberFrom parent depth next draft).drop place
  | .node entry children, parent, depth, next, 0, _, found => by
      rw [numberFrom, List.getElem?_cons_zero] at found
      obtain rfl := Option.some.inj found
      exact List.prefix_rfl
  | .node entry children, parent, depth, next, place + 1, _, found => by
      rw [numberFrom, List.getElem?_cons_succ] at found
      rw [numberFrom, List.drop_succ_cons]
      exact isPrefix_drop_numberAllFrom children _ _ _ place found

theorem isPrefix_drop_numberAllFrom : ∀ (drafts : List Draft) (parent depth next place : Nat)
    {node : Node},
    (numberAllFrom parent depth next drafts)[place]? = some node →
      numberFrom node.parent node.depth node.id node.draft <+:
        (numberAllFrom parent depth next drafts).drop place
  | [], _, _, _, _, _, found => by
      rw [numberAllFrom, List.getElem?_nil] at found
      cases found
  | draft :: rest, parent, depth, next, place, _, found => by
      have length := length_numberFrom draft (some parent) depth next
      rw [numberAllFrom] at found ⊢
      by_cases within : place < draft.size
      · rw [List.getElem?_append_left (by omega)] at found
        rw [List.drop_append_of_le_length (by omega)]
        exact (isPrefix_drop_numberFrom draft _ _ _ place found).trans (List.prefix_append _ _)
      · rw [List.getElem?_append_right (by omega), length] at found
        rw [List.drop_append, length, List.drop_eq_nil_of_le (by omega), List.nil_append]
        exact isPrefix_drop_numberAllFrom rest _ _ _ _ found
end

/-! ## Children -/

/-- The nodes of sibling drafts, without what is below them. -/
def siblingNodes (parent depth next : Nat) : List Draft → List Node
  | [] => []
  | draft :: rest =>
    draft.toNode (some parent) depth next :: siblingNodes parent depth (next + draft.size) rest

theorem map_draft_siblingNodes (drafts : List Draft) (parent depth next : Nat) :
    (siblingNodes parent depth next drafts).map Node.draft = drafts := by
  induction drafts generalizing next with
  | nil => rfl
  | cons draft rest ih =>
      rw [siblingNodes, List.map_cons, ih]
      rfl

theorem map_id_siblingNodes (drafts : List Draft) (parent depth next : Nat) :
    (siblingNodes parent depth next drafts).map Node.id = siblingIds next drafts := by
  induction drafts generalizing next with
  | nil => rfl
  | cons draft rest ih =>
      rw [siblingNodes, List.map_cons, ih]
      rfl

/-- The numbers of sibling drafts lead to their nodes in any list that holds them in place. -/
theorem filterMap_siblingIds (drafts : List Draft) (parent depth next : Nat)
    {nodes : List Node}
    (held : numberAllFrom parent depth next drafts <+: nodes.drop next) :
    (siblingIds next drafts).filterMap (fun id => nodes[id]?) =
      siblingNodes parent depth next drafts := by
  induction drafts generalizing next with
  | nil => rfl
  | cons draft rest ih =>
      obtain ⟨beyond, split⟩ := held
      rw [numberAllFrom, List.append_assoc] at split
      have first : nodes[next]? = some (draft.toNode (some parent) depth next) := by
        rw [← Nat.add_zero next, ← List.getElem?_drop, ← split, numberFrom_eq_cons]
        rfl
      have later : numberAllFrom parent depth (next + draft.size) rest <+:
          nodes.drop (next + draft.size) := by
        have length := length_numberFrom draft (some parent) depth next
        refine ⟨beyond, ?_⟩
        rw [← List.drop_drop, ← split, List.drop_append, length, Nat.sub_self, List.drop_zero,
          List.drop_eq_nil_of_le (by omega), List.nil_append]
      rw [siblingIds, siblingNodes, List.filterMap_cons, first]
      exact congrArg _ (ih (next + draft.size) later)

mutual
/-- Every node is the first one, or among the children of a node of the list. -/
theorem mem_siblingNodes_of_mem_numberFrom : ∀ (draft : Draft) (parent : Option Nat)
    (depth next : Nat) {node : Node},
    node ∈ numberFrom parent depth next draft →
      node = draft.toNode parent depth next ∨
        ∃ above ∈ numberFrom parent depth next draft,
          node ∈ siblingNodes above.id (above.depth + 1) (above.id + 1) above.draft.children
  | .node entry children, parent, depth, next, _, member => by
      rw [numberFrom] at member
      rcases List.mem_cons.mp member with first | below
      · exact .inl first
      · refine .inr ?_
        rcases mem_siblingNodes_of_mem_numberAllFrom children next (depth + 1) (next + 1) below with
          child | ⟨above, listed, child⟩
        · refine ⟨(Draft.node entry children).toNode parent depth next, ?_, child⟩
          rw [numberFrom]
          exact List.mem_cons_self
        · refine ⟨above, ?_, child⟩
          rw [numberFrom]
          exact List.mem_cons_of_mem _ listed

theorem mem_siblingNodes_of_mem_numberAllFrom : ∀ (drafts : List Draft)
    (parent depth next : Nat) {node : Node},
    node ∈ numberAllFrom parent depth next drafts →
      node ∈ siblingNodes parent depth next drafts ∨
        ∃ above ∈ numberAllFrom parent depth next drafts,
          node ∈ siblingNodes above.id (above.depth + 1) (above.id + 1) above.draft.children
  | [], _, _, _, _, member => by
      rw [numberAllFrom] at member
      cases member
  | draft :: rest, parent, depth, next, _, member => by
      rw [numberAllFrom] at member ⊢
      rw [siblingNodes]
      rcases List.mem_append.mp member with inside | later
      · rcases mem_siblingNodes_of_mem_numberFrom draft (some parent) depth next inside with
          first | ⟨above, listed, child⟩
        · exact .inl (first ▸ List.mem_cons_self)
        · exact .inr ⟨above, List.mem_append_left _ listed, child⟩
      · rcases mem_siblingNodes_of_mem_numberAllFrom rest parent depth _ later with
          sibling | ⟨above, listed, child⟩
        · exact .inl (List.mem_cons_of_mem _ sibling)
        · exact .inr ⟨above, List.mem_append_right _ listed, child⟩
end

theorem le_of_mem_siblingIds {drafts : List Draft} {next id : Nat}
    (member : id ∈ siblingIds next drafts) : next ≤ id := by
  induction drafts generalizing next with
  | nil => cases member
  | cons draft rest ih =>
      rcases List.mem_cons.mp member with rfl | later
      · exact Nat.le_refl _
      · exact Nat.le_trans (Nat.le_add_right _ _) (ih later)

/-- The number of a child comes right behind all that is below its parent before it. -/
theorem getElem?_siblingIds (drafts : List Draft) (next place : Nat) :
    (siblingIds next drafts)[place]? =
      drafts[place]?.map fun _ => next + sizeAll (drafts.take place) := by
  induction drafts generalizing next place with
  | nil => rfl
  | cons draft rest ih =>
      cases place with
      | zero => rfl
      | succ place =>
          rw [siblingIds, List.getElem?_cons_succ, List.getElem?_cons_succ, ih, List.take_succ_cons,
            sizeAll, Nat.add_assoc]

theorem size_pos (draft : Draft) : 0 < draft.size := by
  cases draft with
  | node entry children =>
      rw [size]
      exact Nat.succ_pos _

theorem nodup_siblingIds (drafts : List Draft) (next : Nat) : (siblingIds next drafts).Nodup := by
  induction drafts generalizing next with
  | nil => exact List.nodup_nil
  | cons draft rest ih =>
      refine List.nodup_cons.mpr ⟨fun again => ?_, ih _⟩
      have := le_of_mem_siblingIds again
      have := size_pos draft
      omega

theorem parent_of_mem_siblingNodes {drafts : List Draft} {parent depth next : Nat} {node : Node}
    (member : node ∈ siblingNodes parent depth next drafts) : node.parent = some parent := by
  induction drafts generalizing next with
  | nil => cases member
  | cons draft rest ih =>
      rcases List.mem_cons.mp member with rfl | later
      · rfl
      · exact ih later

theorem depth_of_mem_siblingNodes {drafts : List Draft} {parent depth next : Nat} {node : Node}
    (member : node ∈ siblingNodes parent depth next drafts) : node.depth = depth := by
  induction drafts generalizing next with
  | nil => cases member
  | cons draft rest ih =>
      rcases List.mem_cons.mp member with rfl | later
      · rfl
      · exact ih later

/-! ## Drafts written out -/

/-- A string on one line. -/
def word (text : String) (line column : Nat) : Draft :=
  .scalar text .string (.closed ⟨line, column⟩ ⟨line, column + text.length⟩)

/-- A draft as the value of an entry whose key stands at a place. -/
def under (draft : Draft) (name : String) (line column : Nat) : Draft :=
  draft.asField name (some (.closed ⟨line, column⟩ ⟨line, column + name.length⟩))

end Draft

/-! ## The links of a tree -/

namespace Tree

variable {tree : Tree} {node : Node}

theorem node?_eq_getElem? (tree : Tree) (id : Nat) :
    tree.node? id = (Draft.numberFrom none 0 0 tree.draft)[id]? := by
  rw [node?, tree.nodes_eq, Draft.number_eq, List.getElem?_toArray]

theorem mem_nodes_iff : node ∈ tree.nodes ↔ node ∈ Draft.numberFrom none 0 0 tree.draft := by
  rw [tree.nodes_eq, Draft.number_eq, List.mem_toArray]

theorem mem_nodes_of_node? {id : Nat} (found : tree.node? id = some node) : node ∈ tree.nodes :=
  Array.mem_of_getElem? found

/-- A number leads to the node that carries it. -/
theorem id_of_node? {id : Nat} (found : tree.node? id = some node) : node.id = id := by
  rw [node?_eq_getElem?] at found
  rw [Draft.id_of_getElem?_numberFrom _ _ _ _ _ found, Nat.zero_add]

theorem node?_id (member : node ∈ tree.nodes) : tree.node? node.id = some node := by
  obtain ⟨id, found⟩ := List.mem_iff_getElem?.mp (mem_nodes_iff.mp member)
  rw [← node?_eq_getElem?] at found
  rw [id_of_node? found, found]

theorem eq_of_id_eq {other : Node} (member : node ∈ tree.nodes) (listed : other ∈ tree.nodes)
    (same : node.id = other.id) : node = other := by
  have found := node?_id member
  rw [same, node?_id listed] at found
  exact (Option.some.inj found).symm

theorem isPrefix_drop (member : node ∈ tree.nodes) :
    Draft.numberFrom node.parent node.depth node.id node.draft <+:
      (Draft.numberFrom none 0 0 tree.draft).drop node.id := by
  have found := node?_id member
  rw [node?_eq_getElem?] at found
  exact Draft.isPrefix_drop_numberFrom _ _ _ _ _ found

/-- A node of the table is what its own draft becomes under its number. -/
theorem eq_toNode (member : node ∈ tree.nodes) :
    node = node.draft.toNode node.parent node.depth node.id := by
  obtain ⟨beyond, split⟩ := isPrefix_drop member
  have found := node?_id member
  rw [node?_eq_getElem?, ← Nat.add_zero node.id, ← List.getElem?_drop, ← split,
    Draft.numberFrom_eq_cons] at found
  exact (Option.some.inj found).symm

/-- **The children of a node are the nodes of the drafts right below its own.** -/
theorem childrenOf_eq (member : node ∈ tree.nodes) :
    tree.childrenOf node =
      Draft.siblingNodes node.id (node.depth + 1) (node.id + 1) node.draft.children := by
  have listed : node.children = Draft.siblingIds (node.id + 1) node.draft.children :=
    congrArg Node.children (eq_toNode member)
  have lookup : tree.node? = fun id => (Draft.numberFrom none 0 0 tree.draft)[id]? :=
    funext (node?_eq_getElem? tree)
  rw [childrenOf, listed, lookup]
  apply Draft.filterMap_siblingIds
  obtain ⟨beyond, split⟩ := isPrefix_drop member
  rw [Draft.numberFrom_eq_cons, List.cons_append] at split
  refine ⟨beyond, ?_⟩
  rw [← List.drop_drop, ← split]
  rfl

theorem map_draft_childrenOf (member : node ∈ tree.nodes) :
    (tree.childrenOf node).map Node.draft = node.draft.children := by
  rw [childrenOf_eq member, Draft.map_draft_siblingNodes]

theorem map_id_childrenOf (member : node ∈ tree.nodes) :
    (tree.childrenOf node).map Node.id = node.children := by
  rw [childrenOf_eq member, Draft.map_id_siblingNodes]
  exact (congrArg Node.children (eq_toNode member)).symm

theorem mem_nodes_of_mem_childrenOf {child : Node} (member : child ∈ tree.childrenOf node) :
    child ∈ tree.nodes := by
  obtain ⟨id, _, found⟩ := List.mem_filterMap.mp member
  exact mem_nodes_of_node? found

theorem mem_nodes_of_parent? {parent : Node} (above : tree.parent? node = some parent) :
    parent ∈ tree.nodes := by
  obtain ⟨id, _, found⟩ := Option.bind_eq_some_iff.mp above
  exact mem_nodes_of_node? found

theorem root_mem_nodes (tree : Tree) : tree.root ∈ tree.nodes := by
  rw [mem_nodes_iff, Draft.numberFrom_eq_cons]
  exact List.mem_cons_self

theorem eq_root_of_isRoot (member : node ∈ tree.nodes) (isRoot : node.isRoot = true) :
    node = tree.root := by
  rcases Draft.mem_siblingNodes_of_mem_numberFrom _ _ _ _ (mem_nodes_iff.mp member) with
    root | ⟨other, _, child⟩
  · exact root
  · rw [Node.isRoot, Draft.parent_of_mem_siblingNodes child] at isRoot
    cases isRoot

/-- A node with a parent is among the children of that parent. -/
theorem mem_childrenOf_of_parent? {parent : Node} (member : node ∈ tree.nodes)
    (above : tree.parent? node = some parent) : node ∈ tree.childrenOf parent := by
  rcases Draft.mem_siblingNodes_of_mem_numberFrom _ _ _ _ (mem_nodes_iff.mp member) with
    root | ⟨other, listed, child⟩
  · rw [root] at above
    cases above
  · have held := mem_nodes_iff.mpr listed
    rw [parent?, Draft.parent_of_mem_siblingNodes child, Option.bind_some, node?_id held] at above
    obtain rfl := Option.some.inj above
    rwa [childrenOf_eq held]

/-- Every node but the root has a parent. -/
theorem exists_parent?_of_isRoot_eq_false (member : node ∈ tree.nodes)
    (below : node.isRoot = false) : ∃ parent, tree.parent? node = some parent := by
  rcases Draft.mem_siblingNodes_of_mem_numberFrom _ _ _ _ (mem_nodes_iff.mp member) with
    root | ⟨other, listed, child⟩
  · rw [root] at below
    cases below
  · refine ⟨other, ?_⟩
    rw [parent?, Draft.parent_of_mem_siblingNodes child, Option.bind_some,
      node?_id (mem_nodes_iff.mpr listed)]

theorem parent?_of_mem_childrenOf {child : Node} (member : node ∈ tree.nodes)
    (below : child ∈ tree.childrenOf node) : tree.parent? child = some node := by
  rw [childrenOf_eq member] at below
  rw [parent?, Draft.parent_of_mem_siblingNodes below, Option.bind_some, node?_id member]

theorem depth_of_parent? {parent : Node} (member : node ∈ tree.nodes)
    (above : tree.parent? node = some parent) : node.depth = parent.depth + 1 := by
  have below := mem_childrenOf_of_parent? member above
  rw [childrenOf_eq (mem_nodes_of_parent? above)] at below
  exact Draft.depth_of_mem_siblingNodes below

/-- The ancestors of a node are its parent and the ancestors of its parent. -/
theorem ancestors_eq_cons {parent : Node} (member : node ∈ tree.nodes)
    (above : tree.parent? node = some parent) :
    tree.ancestors node = parent :: tree.ancestors parent := by
  rw [parent?] at above
  rw [ancestors, depth_of_parent? member above, climb, above, ancestors]

theorem followerOf_map_id {id next : Nat} {nodes : List Node}
    (follows : followerOf id (nodes.map Node.id) = some next) :
    ∃ front first second back, nodes = front ++ first :: second :: back ∧ first.id = id ∧
      second.id = next := by
  induction nodes with
  | nil => cases follows
  | cons first rest ih =>
      rw [List.map_cons, followerOf] at follows
      by_cases here : first.id = id
      · rw [if_pos (beq_iff_eq.mpr here)] at follows
        cases rest with
        | nil => cases follows
        | cons second back => exact ⟨[], first, second, back, rfl, here, Option.some.inj follows⟩
      · rw [if_neg fun equal => here (beq_iff_eq.mp equal)] at follows
        obtain ⟨front, left, right, back, rfl, same, after⟩ := ih follows
        exact ⟨first :: front, left, right, back, rfl, same, after⟩

/-- The next sibling of a node comes right after it among the children of their parent. -/
theorem exists_adjacent_of_nextSibling? {next : Node} (member : node ∈ tree.nodes)
    (follows : tree.nextSibling? node = some next) :
    ∃ parent ∈ tree.nodes, ∃ front back,
      tree.childrenOf parent = front ++ node :: next :: back := by
  simp only [nextSibling?, Option.bind_eq_bind, Option.bind_eq_some_iff] at follows
  obtain ⟨parent, above, id, follower, found⟩ := follows
  have held := mem_nodes_of_parent? above
  rw [← map_id_childrenOf held] at follower
  obtain ⟨front, first, second, back, split, same, after⟩ := followerOf_map_id follower
  have listed : ∀ child ∈ front ++ first :: second :: back, child ∈ tree.nodes := by
    intro child below
    exact mem_nodes_of_mem_childrenOf (split ▸ below)
  have first_eq : first = node := eq_of_id_eq (listed first (by simp)) member same
  have second_eq : second = next :=
    eq_of_id_eq (listed second (by simp)) (mem_nodes_of_node? found)
      (after.trans (id_of_node? found).symm)
  exact ⟨parent, held, front, back, by rw [split, first_eq, second_eq]⟩

theorem followerOf_append {front back : List Nat} {id next : Nat} (fresh : id ∉ front) :
    followerOf id (front ++ id :: next :: back) = some next := by
  induction front with
  | nil => simp [followerOf]
  | cons first rest ih =>
      have other : first ≠ id := fun same => fresh (same ▸ List.mem_cons_self)
      rw [List.cons_append, followerOf, if_neg (by simpa using other)]
      exact ih fun later => fresh (List.mem_cons_of_mem _ later)

/-- The child of a node that comes right after another one is its next sibling. -/
theorem nextSibling?_of_adjacent {child next : Node} {front back : List Node}
    (member : node ∈ tree.nodes) (split : tree.childrenOf node = front ++ child :: next :: back) :
    tree.nextSibling? child = some next := by
  have below : child ∈ tree.childrenOf node := by rw [split]; simp
  have listed : next ∈ tree.childrenOf node := by rw [split]; simp
  have ids : node.children = front.map Node.id ++ child.id :: next.id :: back.map Node.id := by
    rw [← map_id_childrenOf member, split, List.map_append]
    rfl
  have fresh : child.id ∉ front.map Node.id := by
    have nodup : node.children.Nodup := by
      rw [congrArg Node.children (eq_toNode member)]
      exact Draft.nodup_siblingIds _ _
    rw [ids, List.nodup_append] at nodup
    intro again
    exact nodup.2.2 _ again _ List.mem_cons_self rfl
  simp only [nextSibling?, parent?_of_mem_childrenOf member below, ids, followerOf_append fresh,
    Option.bind_eq_bind, Option.bind_some, node?_id (mem_nodes_of_mem_childrenOf listed)]

end Tree

end Blueprint
