import Blueprint.ParseTree.Cursor

/-!
# The walk computes the fold

`ParseTree.traverseM` goes through a tree with a cursor and a stack of its own. It comes to the same
result as `ParseTree.foldM`, which is defined by recursion on the tree, whatever the visitor does
and keeps. It always gets there, and its stack is never at fault.

The two halves of the proof follow the tree. To enter a node is to come to its exit, with the
cursor back on it and the outcomes of its children on the stack (`run_enter`). To go on from a child
is to come to the exit of its parent, once the outcomes of the later siblings are added to those
already there (`run_goToSiblings`).

In which order the visitor is called, and with what, is said by `Records`: the calls made below a
node come first, child by child, and then the node's own call, which is given the outcomes of its
children. The calls of a walk are recorded in this way (`traverseM_calls_in_postorder`).

Proofs about the fold of a visitor that keeps nothing go from the leaves up: what passes to each
node from all its children holds of every tree (`holds_of_children`).

A tree that is written out is made of three kinds of nodes (`sound`, `region`, `punctuation`).
-/

set_option autoImplicit false

namespace Blueprint.ParseTree

mutual
/-- What passes to each node from all its children holds of every tree. -/
theorem holds_of_children {holds : ParseTree → Prop}
    (passes : ∀ label children, (∀ child ∈ children, holds child) → holds (.node label children)) :
    ∀ tree, holds tree
  | .node label children => passes label children (forall_holds_of_children passes children)

theorem forall_holds_of_children {holds : ParseTree → Prop}
    (passes : ∀ label children, (∀ child ∈ children, holds child) → holds (.node label children)) :
    ∀ trees : List ParseTree, ∀ tree ∈ trees, holds tree
  | [] => List.forall_mem_nil _
  | tree :: rest =>
      List.forall_mem_cons.mpr ⟨holds_of_children passes tree, forall_holds_of_children passes rest⟩
end

/-! ## The fold of a visitor that remembers -/

section Fold

variable {Memory Result : Type} (visit : ParseNode → List (Visited Result) → StateM Memory Result)

mutual
/-- The value of a tree by recursion: the values of the children from first to last, then the one
of the node. -/
def foldM : ParseTree → StateM Memory Result
  | .node label children => do
    let outcomes ← foldAllM children
    visit label outcomes

/-- The values of sibling trees from first to last, each with its kind and field. -/
def foldAllM : List ParseTree → StateM Memory (List (Visited Result))
  | [] => return []
  | tree :: rest => do
    let result ← foldM tree
    let outcomes ← foldAllM rest
    return ⟨tree.label.kind, tree.label.field, result⟩ :: outcomes
end

theorem foldM_eq (tree : ParseTree) (memory : Memory) :
    foldM visit tree memory =
      visit tree.label (foldAllM visit tree.children memory).1
        (foldAllM visit tree.children memory).2 := by
  cases tree with
  | node label children => rfl

/-- The outcome of a whole tree, met with a memory. -/
def outcomeM (tree : ParseTree) (memory : Memory) : Visited Result :=
  ⟨tree.label.kind, tree.label.field, (foldM visit tree memory).1⟩

theorem foldAllM_cons (tree : ParseTree) (rest : List ParseTree) (memory : Memory) :
    foldAllM visit (tree :: rest) memory =
      (outcomeM visit tree memory :: (foldAllM visit rest (foldM visit tree memory).2).1,
        (foldAllM visit rest (foldM visit tree memory).2).2) := rfl

/-! ## Single steps -/

/-- A walk goes on as its first step says. -/
theorem run_eq (walk : Walk Memory Result) :
    walk.run visit =
      match walk.step visit with
      | .on next => next.run visit
      | .done result memory => .ok (result, memory)
      | .failed fault => .error fault := by
  rw [Walk.run]
  split <;> simp only [*]

theorem run_enter_leaf (label : ParseNode) (later : List ParseTree)
    (above : List (ParseTree × List ParseTree)) (stack : List (Phase Result)) (memory : Memory) :
    Walk.run visit ⟨⟨.node label [], later, above⟩, .enter label :: stack, memory⟩ =
      Walk.run visit ⟨⟨.node label [], later, above⟩,
        .exit label :: .goToSiblings label [] :: stack, memory⟩ :=
  run_eq visit _

theorem run_enter_parent (label : ParseNode) (first : ParseTree) (rest later : List ParseTree)
    (above : List (ParseTree × List ParseTree)) (stack : List (Phase Result)) (memory : Memory) :
    Walk.run visit ⟨⟨.node label (first :: rest), later, above⟩, .enter label :: stack, memory⟩ =
      Walk.run visit ⟨⟨first, rest, (.node label (first :: rest), later) :: above⟩,
        .enter first.label :: .goToSiblings label [] :: stack, memory⟩ :=
  run_eq visit _

theorem run_to_sibling (label : ParseNode) (children : List (Visited Result))
    (focus next : ParseTree) (rest : List ParseTree) (above : List (ParseTree × List ParseTree))
    (stack : List (Phase Result)) (memory : Memory) :
    Walk.run visit ⟨⟨focus, next :: rest, above⟩, .goToSiblings label children :: stack, memory⟩ =
      Walk.run visit ⟨⟨next, rest, above⟩,
        .enter next.label :: .goToSiblings label children :: stack, memory⟩ :=
  run_eq visit _

theorem run_to_parent (label : ParseNode) (children : List (Visited Result))
    (focus parent : ParseTree) (later : List ParseTree)
    (above : List (ParseTree × List ParseTree)) (stack : List (Phase Result)) (memory : Memory) :
    Walk.run visit ⟨⟨focus, [], (parent, later) :: above⟩, .goToSiblings label children :: stack,
        memory⟩ =
      Walk.run visit ⟨⟨parent, later, above⟩,
        .exit label :: .goToSiblings label children :: stack, memory⟩ :=
  run_eq visit _

/-- To leave a node is to add its outcome to those of its earlier siblings. -/
theorem run_exit (label parent : ParseNode) (children siblings : List (Visited Result))
    (cursor : Cursor) (stack : List (Phase Result)) (memory : Memory) :
    Walk.run visit ⟨cursor, .exit label :: .goToSiblings label children ::
        .goToSiblings parent siblings :: stack, memory⟩ =
      Walk.run visit ⟨cursor, .goToSiblings parent
        (⟨label.kind, label.field, (visit label children.reverse memory).1⟩ :: siblings) :: stack,
        (visit label children.reverse memory).2⟩ :=
  run_eq visit _

theorem run_exit_root (label : ParseNode) (children : List (Visited Result)) (cursor : Cursor)
    (memory : Memory) :
    Walk.run visit ⟨cursor, [.exit label, .goToSiblings label children], memory⟩ =
      .ok (visit label children.reverse memory) :=
  run_eq visit _

/-! ## Whole subtrees -/

mutual
/-- To enter a node is to come to its exit with the outcomes of its children. -/
theorem run_enter : ∀ (tree : ParseTree) (later : List ParseTree)
    (above : List (ParseTree × List ParseTree)) (stack : List (Phase Result)) (memory : Memory),
    Walk.run visit ⟨⟨tree, later, above⟩, .enter tree.label :: stack, memory⟩ =
      Walk.run visit ⟨⟨tree, later, above⟩,
        .exit tree.label ::
          .goToSiblings tree.label (foldAllM visit tree.children memory).1.reverse :: stack,
        (foldAllM visit tree.children memory).2⟩
  | .node label [], later, above, stack, memory =>
      run_enter_leaf visit label later above stack memory
  | .node label (first :: rest), later, above, stack, memory => by
      simp only [ParseTree.label, ParseTree.children]
      rw [run_enter_parent, run_enter first, run_exit, List.reverse_reverse,
        run_goToSiblings rest, ← foldM_eq visit, foldAllM_cons, List.reverse_cons]
      rfl

/-- To go on from a child is to come to the exit of its parent with the outcomes of the later
siblings behind those already there. -/
theorem run_goToSiblings : ∀ (rest : List ParseTree) (focus parent : ParseTree)
    (label : ParseNode) (children : List (Visited Result)) (later : List ParseTree)
    (above : List (ParseTree × List ParseTree)) (stack : List (Phase Result)) (memory : Memory),
    Walk.run visit ⟨⟨focus, rest, (parent, later) :: above⟩,
        .goToSiblings label children :: stack, memory⟩ =
      Walk.run visit ⟨⟨parent, later, above⟩,
        .exit label ::
          .goToSiblings label ((foldAllM visit rest memory).1.reverse ++ children) :: stack,
        (foldAllM visit rest memory).2⟩
  | [], focus, parent, label, children, later, above, stack, memory =>
      run_to_parent visit label children focus parent later above stack memory
  | next :: rest, focus, parent, label, children, later, above, stack, memory => by
      rw [run_to_sibling, run_enter next, run_exit, List.reverse_reverse, run_goToSiblings rest,
        ← foldM_eq visit, foldAllM_cons, List.reverse_cons, List.append_assoc]
      rfl
end

/-- **The walk computes the fold**, for every tree, whatever is done at its nodes and kept of it. -/
theorem traverseM_eq_ok_foldM (tree : ParseTree) (memory : Memory) :
    traverseM visit tree memory = .ok (foldM visit tree memory) := by
  rw [traverseM, Walk.start, Cursor.atRoot, run_enter, run_exit_root, List.reverse_reverse,
    foldM_eq]

/-! ## The calls of the visitor -/

/-- A call of the visitor: the node, the outcomes of its children, and what the call gave. -/
structure Call (Result : Type) where
  node : ParseNode
  children : List (Visited Result)
  result : Result

/-- The visitor with a record of its calls kept beside its own memory, the latest call last. -/
def recording (node : ParseNode) (children : List (Visited Result)) :
    StateM (Memory × List (Call Result)) Result :=
  modifyGet fun (memory, calls) =>
    let (result, memory) := (visit node children).run memory
    (result, memory, calls ++ [⟨node, children, result⟩])

mutual
/-- The calls that a tree is visited with, and its outcome: those for the children, and then one for
the node, which is given the outcomes of the children. -/
inductive Records : ParseTree → List (Call Result) → Visited Result → Prop where
  | node {children : List ParseTree} {calls : List (Call Result)}
      {outcomes : List (Visited Result)} (label : ParseNode) (result : Result) :
      RecordsAll children calls outcomes →
        Records (.node label children) (calls ++ [⟨label, outcomes, result⟩])
          ⟨label.kind, label.field, result⟩

/-- The calls that sibling trees are visited with, one tree after the other, and their outcomes. -/
inductive RecordsAll : List ParseTree → List (Call Result) → List (Visited Result) → Prop where
  | nil : RecordsAll [] [] []
  | cons {tree : ParseTree} {rest : List ParseTree} {calls later : List (Call Result)}
      {outcome : Visited Result} {outcomes : List (Visited Result)} :
      Records tree calls outcome → RecordsAll rest later outcomes →
        RecordsAll (tree :: rest) (calls ++ later) (outcome :: outcomes)
end

mutual
/-- The nodes of a tree, every node after those below it. -/
def postorder : ParseTree → List ParseNode
  | .node label children => postorderAll children ++ [label]

/-- The nodes of sibling trees, every node after those below it. -/
def postorderAll : List ParseTree → List ParseNode
  | [] => []
  | tree :: rest => tree.postorder ++ postorderAll rest
end

mutual
/-- The calls are one for each node, in postorder. -/
theorem Records.map_node : ∀ {tree : ParseTree} {calls : List (Call Result)}
    {outcome : Visited Result}, Records tree calls outcome →
      calls.map Call.node = tree.postorder
  | _, _, _, .node label result below => by
      rw [List.map_append, below.map_node, postorder]
      rfl

theorem RecordsAll.map_node : ∀ {trees : List ParseTree} {calls : List (Call Result)}
    {outcomes : List (Visited Result)}, RecordsAll trees calls outcomes →
      calls.map Call.node = postorderAll trees
  | _, _, _, .nil => rfl
  | _, _, _, .cons first rest => by
      rw [List.map_append, first.map_node, rest.map_node, postorderAll]
end

mutual
/-- Recording changes nothing for the visitor, and the fold makes the calls that it should. -/
theorem exists_records_foldM : ∀ (tree : ParseTree) (memory : Memory),
    ∃ calls, Records tree calls (outcomeM visit tree memory) ∧
      ∀ earlier, foldM (recording visit) tree (memory, earlier) =
        ((foldM visit tree memory).1, (foldM visit tree memory).2, earlier ++ calls)
  | .node label children, memory => by
      obtain ⟨calls, records, folds⟩ := exists_recordsAll_foldAllM children memory
      refine ⟨_, .node label _ records, fun earlier => ?_⟩
      rw [foldM_eq, foldM_eq]
      simp only [ParseTree.children, folds earlier, ← List.append_assoc]
      rfl

theorem exists_recordsAll_foldAllM : ∀ (trees : List ParseTree) (memory : Memory),
    ∃ calls, RecordsAll trees calls (foldAllM visit trees memory).1 ∧
      ∀ earlier, foldAllM (recording visit) trees (memory, earlier) =
        ((foldAllM visit trees memory).1, (foldAllM visit trees memory).2, earlier ++ calls)
  | [], memory => ⟨[], .nil, fun earlier => by rw [List.append_nil]; rfl⟩
  | tree :: rest, memory => by
      obtain ⟨calls, records, folds⟩ := exists_records_foldM tree memory
      obtain ⟨later, recordsRest, foldsRest⟩ :=
        exists_recordsAll_foldAllM rest (foldM visit tree memory).2
      refine ⟨calls ++ later, .cons records recordsRest, fun earlier => ?_⟩
      rw [foldAllM_cons, foldAllM_cons, outcomeM, outcomeM, folds, foldsRest, List.append_assoc]
end

/-- **The walk is the fold, call by call.** From the root of any tree, whatever the visitor does and
keeps, the walk ends, its stack is never at fault, and it gives what the recursive fold gives. The
visitor is called once for each node in postorder, with the outcomes of that node's children in
document order, each with the child's kind and field. -/
theorem traverseM_calls_in_postorder (tree : ParseTree) (memory : Memory) :
    traverseM visit tree memory = .ok (foldM visit tree memory) ∧
      ∃ calls,
        traverseM (recording visit) tree (memory, []) =
          .ok ((foldM visit tree memory).1, (foldM visit tree memory).2, calls) ∧
        Records tree calls
          ⟨tree.label.kind, tree.label.field, (foldM visit tree memory).1⟩ ∧
        calls.map Call.node = tree.postorder := by
  obtain ⟨calls, records, folds⟩ := exists_records_foldM visit tree memory
  refine ⟨traverseM_eq_ok_foldM visit tree memory, calls, ?_, records, records.map_node⟩
  rw [traverseM_eq_ok_foldM, folds, List.nil_append]

end Fold

/-! ## Visitors that keep nothing -/

variable {Result : Type} (visit : ParseNode → List (Visited Result) → Result)

/-- The outcome of a whole tree. -/
def outcome (tree : ParseTree) : Visited Result :=
  ⟨tree.label.kind, tree.label.field, tree.fold visit⟩

theorem foldAll_eq_map (trees : List ParseTree) :
    foldAll visit trees = trees.map (outcome visit) := by
  induction trees with
  | nil => rfl
  | cons tree rest ih => simp only [foldAll, outcome, List.map_cons, ih]

mutual
theorem foldM_pure {Memory : Type} : ∀ (tree : ParseTree) (memory : Memory),
    foldM (fun node children => pure (visit node children)) tree memory =
      (tree.fold visit, memory)
  | .node label children, memory => by
      rw [foldM_eq, ParseTree.children, foldAllM_pure children memory]
      rfl

theorem foldAllM_pure {Memory : Type} : ∀ (trees : List ParseTree) (memory : Memory),
    foldAllM (fun node children => pure (visit node children)) trees memory =
      (foldAll visit trees, memory)
  | [], _ => rfl
  | tree :: rest, memory => by
      rw [foldAllM_cons, outcomeM, foldM_pure tree, foldAllM_pure rest]
      rfl
end

/-- The walk of a visitor that keeps nothing computes the plain fold. -/
theorem traverse_eq_some_fold (tree : ParseTree) :
    tree.traverse visit = some (tree.fold visit) := by
  rw [traverse, traverseM_eq_ok_foldM, foldM_pure]
  rfl

/-! ## Trees written out -/

/-- A node that the parser made sense of. -/
def sound (kind : String) (field : Option String) (start stop : Nat)
    (children : List ParseTree) : ParseTree :=
  .node ⟨kind, true, false, false, field, start, stop⟩ children

/-- A region that the parser could not make sense of. -/
def region (start stop : Nat) (children : List ParseTree) : ParseTree :=
  .node ⟨"ERROR", true, false, true, none, start, stop⟩ children

/-- A character of punctuation. -/
def punctuation (kind : String) (start : Nat) : ParseTree :=
  .node ⟨kind, false, false, false, none, start, start + 1⟩ []

end Blueprint.ParseTree
