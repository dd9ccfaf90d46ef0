import Std.Data.TreeMap
import Blueprint.Tree.Basic

/-!
# Looking nodes up

A `Lookup` is a tree whose nodes are also filed by line: under every line that a node's span
touches, and, for all but the root, under the line on which the node's entry begins. Asking
for the nodes at a position then looks at one line only.

Besides positions, a node is found by its path, and the node that a line of white space
belongs to is found by indentation: from the nearest earlier line on which an entry begins, up
to the first node anchored to the left of the cursor.
-/

set_option autoImplicit false

namespace Blueprint

/-- Node numbers filed under lines, in the order they were filed. -/
structure LineFile where
  entries : Std.TreeMap Nat (Array Nat)

namespace LineFile

/-- Nothing filed yet. -/
def empty : LineFile := ⟨∅⟩

/-- The numbers filed under a line. -/
def on (file : LineFile) (line : Nat) : List Nat := (file.entries.getD line #[]).toList

/-- The file with a number added under a line. -/
def add (file : LineFile) (line id : Nat) : LineFile :=
  ⟨file.entries.insert line ((file.entries.getD line #[]).push id)⟩

/-- The file with a number added under `count` lines from `line` on. -/
def addLines (file : LineFile) (id line : Nat) : (count : Nat) → LineFile
  | 0 => file
  | count + 1 => (file.add line id).addLines id (line + 1) count

/-- The file with a node's number added under every line that its span touches. -/
def addSpan (file : LineFile) (node : Node) : LineFile :=
  file.addLines node.id node.span.start.line (node.span.lastLine + 1 - node.span.start.line)

/-- The file with a node's number added under the line on which its entry begins. -/
def addEntry (file : LineFile) (node : Node) : LineFile :=
  if node.isRoot then file else file.add node.entryStart.line node.id

end LineFile

/-- A tree with its nodes filed by line. -/
structure Lookup where
  tree : Tree
  /-- Every node, under each line that it touches. -/
  touching : LineFile
  /-- Every node but the root, under the line on which its entry begins. -/
  beginning : LineFile
  /-- The last line that any node touches. -/
  lastLine : Nat

namespace Lookup

/-- File the nodes of a tree. -/
def build (tree : Tree) : Lookup :=
  { tree
    touching := tree.nodes.foldl LineFile.addSpan .empty
    beginning := tree.nodes.foldl LineFile.addEntry .empty
    lastLine := tree.nodes.foldl (fun last node => max last node.span.lastLine) 0 }

/-! ## By position -/

/-- A node put into a list by depth, behind those that are as deep. -/
def insertByDepth (node : Node) : List Node → List Node
  | [] => [node]
  | first :: rest =>
    if first.depth ≤ node.depth then first :: insertByDepth node rest else node :: first :: rest

/-- The nodes by increasing depth, equally deep ones in their given order. -/
def sortByDepth (nodes : List Node) : List Node :=
  nodes.foldl (fun sorted node => insertByDepth node sorted) []

/-- The nodes that contain a position, the shallowest first. -/
def nodesAt (lookup : Lookup) (position : Position) (leeway : Nat) : List Node :=
  let onLine := (lookup.touching.on position.line).filterMap lookup.tree.node?
  sortByDepth (onLine.filter fun node => node.containsWithin position leeway)

/-- The deepest node that contains a position, the last of them in the document. -/
def deepestAt (lookup : Lookup) (position : Position) (leeway : Nat) : Option Node :=
  (lookup.nodesAt position leeway).getLast?

/-! ## By path -/

/-- The first node whose path is written as given; the empty text and a lone slash name the root. -/
def findWritten? (lookup : Lookup) (text : String) : Option Node :=
  if text.isEmpty || text == "/" then some lookup.tree.root
  else lookup.tree.nodes.find? fun node => (lookup.tree.pathOf node).render == text

/-- The first node with a path; the empty path names the root. -/
def find? (lookup : Lookup) (path : Path) : Option Node :=
  if path.isEmpty then some lookup.tree.root
  else lookup.tree.nodes.find? fun node => lookup.tree.pathOf node == path

/-! ## By indentation -/

/-- The deeper of two nodes, the second if they are equally deep. -/
def deeper (best : Option Node) (node : Node) : Option Node :=
  match best with
  | none => some node
  | some kept => if kept.depth ≤ node.depth then some node else some kept

/-- The deepest node whose entry begins on a line, the last of them in the document. -/
def deepestBeginningOn (lookup : Lookup) (line : Nat) : Option Node :=
  ((lookup.beginning.on line).filterMap lookup.tree.node?).foldl deeper none

/-- The deepest node whose entry begins on the nearest line from `line` upwards that has one. -/
def nearestBeginning (lookup : Lookup) : (line : Nat) → Option Node
  | 0 => none
  | line + 1 =>
    match lookup.deepestBeginningOn (line + 1) with
    | some node => some node
    | none => nearestBeginning lookup line

/-- The node that a cursor on a line of white space belongs to: from the nearest earlier line on
which an entry begins, the first node of the lineage that is anchored left of the cursor. -/
def enclosing (lookup : Lookup) (line column : Nat) : Node :=
  match lookup.nearestBeginning (min (line - 1) lookup.lastLine) with
  | none => lookup.tree.root
  | some start =>
    let anchored := (lookup.tree.lineage start).find? fun node =>
      node.isRoot || lookup.tree.anchorColumn node < column
    anchored.getD lookup.tree.root

end Lookup

end Blueprint
