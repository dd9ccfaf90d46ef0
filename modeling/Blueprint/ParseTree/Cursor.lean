import Blueprint.ParseTree.Basic

/-!
# Walking a parse tree with a cursor

A cursor stands on one node and moves to the first child, the next sibling or the parent.
`traverseM` visits every node after its children with nothing but these moves and a stack of
its own, so the depth of a document never becomes the depth of a recursion. The stack says what
is still to be done: which node to go into, which one to leave, and for every node that has been
entered and not yet left, the outcomes of its children so far. A visitor may keep a memory from
one call to the next; `traverse` is for those that keep none.

A stack that does not fit the cursor is a fault of the walk. The walk always ends, faulty or not:
each step lowers `Walk.toCome`.
-/

set_option autoImplicit false

namespace Blueprint.ParseTree

/-- A place in a parse tree. -/
structure Cursor where
  /-- The tree at the cursor. -/
  focus : ParseTree
  /-- The later siblings of the focus. -/
  later : List ParseTree
  /-- Every ancestor with its own later siblings, the parent first. -/
  above : List (ParseTree × List ParseTree)

namespace Cursor

/-- The cursor on the root of a tree. -/
def atRoot (tree : ParseTree) : Cursor := ⟨tree, [], []⟩

/-- Move to the first child. -/
def firstChild? (cursor : Cursor) : Option Cursor :=
  match cursor.focus.children with
  | [] => none
  | first :: rest => some ⟨first, rest, (cursor.focus, cursor.later) :: cursor.above⟩

/-- Move to the next sibling. -/
def nextSibling? (cursor : Cursor) : Option Cursor :=
  match cursor.later with
  | [] => none
  | next :: rest => some ⟨next, rest, cursor.above⟩

/-- Move to the parent. -/
def parent? (cursor : Cursor) : Option Cursor :=
  match cursor.above with
  | [] => none
  | (parent, later) :: rest => some ⟨parent, later, rest⟩

/-- The number of nodes in the later siblings of ancestors. -/
def aheadOf : List (ParseTree × List ParseTree) → Nat
  | [] => 0
  | (_, later) :: rest => sizeAll later + aheadOf rest

/-- The number of nodes still ahead once the focus is done. -/
def ahead (cursor : Cursor) : Nat := sizeAll cursor.later + aheadOf cursor.above

theorem firstChild?_lowers {cursor child : Cursor} (moved : cursor.firstChild? = some child) :
    child.focus.size + child.ahead + 1 = cursor.focus.size + cursor.ahead := by
  obtain ⟨⟨label, children⟩, later, above⟩ := cursor
  cases children with
  | nil => simp [firstChild?, ParseTree.children] at moved
  | cons first rest =>
    simp only [firstChild?, ParseTree.children, Option.some.injEq] at moved
    subst moved
    simp only [ahead, aheadOf, ParseTree.size, ParseTree.sizeAll]
    omega

theorem nextSibling?_lowers {cursor next : Cursor} (moved : cursor.nextSibling? = some next) :
    next.focus.size + next.ahead = cursor.ahead := by
  obtain ⟨focus, later, above⟩ := cursor
  cases later with
  | nil => simp [nextSibling?] at moved
  | cons sibling rest =>
    simp only [nextSibling?, Option.some.injEq] at moved
    subst moved
    simp only [ahead, ParseTree.sizeAll]
    omega

/-- Going up from a last sibling leaves as many nodes ahead, also where there is no way up. -/
theorem ahead_parent? {cursor : Cursor} (last : cursor.nextSibling? = none) :
    (cursor.parent?.getD cursor).ahead = cursor.ahead := by
  obtain ⟨focus, later, above⟩ := cursor
  cases later with
  | cons sibling rest => simp [nextSibling?] at last
  | nil =>
    cases above with
    | nil => rfl
    | cons ancestor rest => simp [parent?, ahead, aheadOf, ParseTree.sizeAll]

end Cursor

/-! ## The walk -/

/-- What is still to be done with a node. -/
inductive Phase (Result : Type) where
  /-- The node is to be gone into; the cursor stands on it. -/
  | enter (node : ParseNode)
  /-- The node has been gone into, and these are the outcomes of the children left so far, latest
  first. When this is on top, the cursor stands on the latest of them. -/
  | goToSiblings (node : ParseNode) (children : List (Visited Result))
  /-- The node is to be visited; the cursor is back on it. -/
  | exit (node : ParseNode)

/-- What can be wrong with the stack of a walk. -/
inductive WalkFault where
  /-- Nothing is left to be done, and the root has not been left. -/
  | emptied
  /-- A node is to be left that has not been gone into. -/
  | unmatched
  /-- A node is to be left that has no entered parent below it on the stack. -/
  | misplaced
deriving DecidableEq, Repr

/-- A walk under way. -/
structure Walk (Memory Result : Type) where
  cursor : Cursor
  /-- What is still to be done, the next thing first. -/
  stack : List (Phase Result)
  /-- What the visitor has kept of its calls. -/
  memory : Memory

/-- What a step leads to. -/
inductive Progress (Memory Result : Type) where
  | on (walk : Walk Memory Result)
  | done (result : Result) (memory : Memory)
  | failed (fault : WalkFault)

namespace Walk

variable {Memory Result : Type}

/-- The walk through a whole tree, before its first step. -/
def start (tree : ParseTree) (memory : Memory) : Walk Memory Result :=
  ⟨.atRoot tree, [.enter tree.label], memory⟩

/-- Do what is on top of the stack. Only leaving a node calls the visitor. -/
def step (visit : ParseNode → List (Visited Result) → StateM Memory Result)
    (walk : Walk Memory Result) : Progress Memory Result :=
  match walk.stack with
  | [] => .failed .emptied
  | .enter label :: rest =>
    match walk.cursor.firstChild? with
    | some child =>
      .on ⟨child, .enter child.focus.label :: .goToSiblings label [] :: rest, walk.memory⟩
    | none => .on ⟨walk.cursor, .exit label :: .goToSiblings label [] :: rest, walk.memory⟩
  | .goToSiblings label children :: rest =>
    match walk.cursor.nextSibling? with
    | some next =>
      .on ⟨next, .enter next.focus.label :: .goToSiblings label children :: rest, walk.memory⟩
    | none =>
      .on ⟨walk.cursor.parent?.getD walk.cursor,
        .exit label :: .goToSiblings label children :: rest, walk.memory⟩
  | .exit label :: .goToSiblings entered children :: rest =>
    let (result, memory) := (visit label children.reverse).run walk.memory
    match rest with
    | [] => .done result memory
    | .goToSiblings parent siblings :: below =>
      .on ⟨walk.cursor,
        .goToSiblings parent (⟨label.kind, entered.field, result⟩ :: siblings) :: below, memory⟩
    | _ => .failed .misplaced
  | .exit _ :: _ => .failed .unmatched

/-- A bound on the steps still to come. -/
def toCome (walk : Walk Memory Result) : Nat :=
  match walk.stack with
  | [] => 0
  | .enter _ :: rest => 3 * (walk.cursor.focus.size + walk.cursor.ahead) + 2 * rest.length
  | .goToSiblings _ _ :: rest => 3 * walk.cursor.ahead + 2 * rest.length + 3
  | .exit _ :: rest => 3 * walk.cursor.ahead + 2 * rest.length

theorem step_lowers {visit : ParseNode → List (Visited Result) → StateM Memory Result}
    {walk next : Walk Memory Result} (stepped : walk.step visit = .on next) :
    next.toCome < walk.toCome := by
  obtain ⟨cursor, stack, memory⟩ := walk
  match stack with
  | [] => cases stepped
  | .enter label :: rest =>
    simp only [step] at stepped
    split at stepped
    case h_1 child moved =>
      obtain rfl := Progress.on.inj stepped
      have := Cursor.firstChild?_lowers moved
      simp only [toCome, List.length_cons]
      omega
    case h_2 =>
      obtain rfl := Progress.on.inj stepped
      have := size_pos cursor.focus
      simp only [toCome, List.length_cons]
      omega
  | .goToSiblings label children :: rest =>
    simp only [step] at stepped
    split at stepped
    case h_1 sibling moved =>
      obtain rfl := Progress.on.inj stepped
      have := Cursor.nextSibling?_lowers moved
      simp only [toCome, List.length_cons]
      omega
    case h_2 last =>
      obtain rfl := Progress.on.inj stepped
      simp only [toCome, List.length_cons, Cursor.ahead_parent? last]
      omega
  | .exit label :: .goToSiblings entered children :: .goToSiblings parent siblings :: below =>
    obtain rfl := Progress.on.inj stepped
    simp only [toCome, List.length_cons]
    omega
  | [.exit _, .goToSiblings _ _] => cases stepped
  | .exit _ :: .goToSiblings _ _ :: .enter _ :: _ => cases stepped
  | .exit _ :: .goToSiblings _ _ :: .exit _ :: _ => cases stepped
  | [.exit _] => cases stepped
  | .exit _ :: .enter _ :: _ => cases stepped
  | .exit _ :: .exit _ :: _ => cases stepped

/-- Go on with a walk to its end. -/
def run (visit : ParseNode → List (Visited Result) → StateM Memory Result)
    (walk : Walk Memory Result) : Except WalkFault (Result × Memory) :=
  match _stepped : walk.step visit with
  | .on next => run visit next
  | .done result memory => .ok (result, memory)
  | .failed fault => .error fault
termination_by walk.toCome
decreasing_by exact step_lowers _stepped

end Walk

/-- Visit every node of a tree after its children, and give the outcome of the root with what the
visitor has kept. -/
def traverseM {Memory Result : Type}
    (visit : ParseNode → List (Visited Result) → StateM Memory Result) (tree : ParseTree)
    (memory : Memory) : Except WalkFault (Result × Memory) :=
  (Walk.start tree memory).run visit

/-- Visit every node of a tree after its children, and give the outcome of the root. -/
def traverse {Result : Type} (visit : ParseNode → List (Visited Result) → Result)
    (tree : ParseTree) : Option Result :=
  (traverseM (fun node children => pure (visit node children)) tree ()).toOption.map Prod.fst

end Blueprint.ParseTree
