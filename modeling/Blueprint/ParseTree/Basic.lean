/-!
# Parse trees

The tree that a parser hands over: every node has the parser's kind, the field of the grammar
through which it was reached, a few flags and the byte offsets it runs between. Punctuation is
there too, as nodes without a name of their own.

`fold` computes a value for every node from the values of its children; it is the meaning of
any walk that visits children before their parents.
-/

set_option autoImplicit false

namespace Blueprint

/-- One node of a parse tree, without its children. -/
structure ParseNode where
  kind : String
  /-- Named nodes carry meaning; the others are punctuation. -/
  named : Bool
  /-- The parser put the node in to go on, with no text behind it. -/
  missing : Bool
  /-- The parser could not make sense of the region. -/
  error : Bool
  /-- The field of the grammar through which the node was reached. -/
  field : Option String
  /-- The byte offset at which the node starts. -/
  start : Nat
  /-- The byte offset right after the node. -/
  stop : Nat
deriving DecidableEq, Repr

/-- A parser's tree. -/
inductive ParseTree where
  | node (label : ParseNode) (children : List ParseTree)
deriving Repr

/-- What a parser makes of a text. -/
structure Parse where
  tree : ParseTree
  /-- Whether there was any error, also one that left no error node behind. -/
  hasError : Bool

/-- A visited child as its parent sees it. -/
structure Visited (Result : Type) where
  kind : String
  field : Option String
  result : Result

namespace ParseTree

/-- The topmost node. -/
def label : ParseTree → ParseNode
  | node label _ => label

/-- The trees right below the topmost node. -/
def children : ParseTree → List ParseTree
  | node _ children => children

mutual
/-- The number of nodes of a tree. -/
def size : ParseTree → Nat
  | node _ children => sizeAll children + 1

/-- The number of nodes of a list of trees. -/
def sizeAll : List ParseTree → Nat
  | [] => 0
  | tree :: rest => tree.size + sizeAll rest
end

theorem sizeAll_children_lt (tree : ParseTree) : sizeAll tree.children < tree.size := by
  cases tree with
  | node label children => simp [ParseTree.children, size]

theorem size_pos (tree : ParseTree) : 0 < tree.size :=
  Nat.lt_of_le_of_lt (Nat.zero_le _) (sizeAll_children_lt tree)

mutual
/-- The value of a tree, computed from the values of its children. -/
def fold {Result : Type} (visit : ParseNode → List (Visited Result) → Result) :
    ParseTree → Result
  | node label children => visit label (foldAll visit children)

/-- The values of sibling trees, each with its kind and field. -/
def foldAll {Result : Type} (visit : ParseNode → List (Visited Result) → Result) :
    List ParseTree → List (Visited Result)
  | [] => []
  | tree :: rest => ⟨tree.label.kind, tree.label.field, fold visit tree⟩ :: foldAll visit rest
end

/-! ## Trees from lists of rows -/

/-- Put a node of some depth in front of the trees read so far, taking the deeper ones that follow
it for its children. -/
def gather (row : Nat × ParseNode) (trees : List (Nat × ParseTree)) : List (Nat × ParseTree) :=
  let below := trees.takeWhile fun tree => row.1 < tree.1
  (row.1, node row.2 (below.map Prod.snd)) :: trees.drop below.length

/-- The tree whose nodes are listed in document order, each with its depth. -/
def ofRows? (rows : List (Nat × ParseNode)) : Option ParseTree :=
  match rows.foldr gather [] with
  | [(_, tree)] => some tree
  | _ => none

end ParseTree

end Blueprint
