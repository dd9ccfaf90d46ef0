import Blueprint.Element.Kind
import Blueprint.Element.Load
import Blueprint.Element.Write
import Blueprint.Position

/-!
# Semantic trees

A validator's view of a document: a tree of labelled nodes, each with the span it covers and
maybe the element that it stands for. A node whose element cannot be loaded keeps its place
with the unknown element, so one bad element never spoils the rest of the tree.
-/

set_option autoImplicit false

namespace Blueprint

/-! ## Positions and spans in JSON -/

/-- A position is a record of its line and column. -/
def Position.load (json : Json) : Option Position := do
  guard (json.isRecord 2 && json.fieldsUnique ["line", "column"])
  let line ← json.required 0 "line" Json.nat32?
  let column ← json.required 1 "column" Json.nat32?
  return ⟨line, column⟩

/-- The JSON form of a position. -/
def Position.write (position : Position) : Json :=
  .object [("line", .integer position.line), ("column", .integer position.column)]

/-- A span is a record of its start and, unless it is open, its end. -/
def Span.load (json : Json) : Option Span := do
  guard (json.isRecord 2 && json.fieldsUnique ["start", "end"])
  let start ← json.required 0 "start" Position.load
  let stop ← json.optionalOrEnd 1 "end" Position.load
  return ⟨start, stop⟩

/-- The JSON form of a span. -/
def Span.write (span : Span) : Json :=
  .object ([("start", span.start.write)] ++ Json.optionalMember "end" Position.write span.stop)

/-! ## Nodes -/

/-- What a node of a semantic tree says of itself. -/
structure SemanticEntry where
  label : String
  /-- The validator's rendering of the location, kept for display. -/
  path : String
  span : Span
  element : Option Element

/-- A semantic tree. -/
inductive SemanticTree where
  | node (entry : SemanticEntry) (children : List SemanticTree)

namespace SemanticTree

/-- What the topmost node says of itself. -/
def entry : SemanticTree → SemanticEntry
  | node entry _ => entry

/-- The trees right below the topmost node. -/
def children : SemanticTree → List SemanticTree
  | node _ children => children

/-- The kind of the topmost node's element. -/
def kind (tree : SemanticTree) : ElementKind := .ofElement? tree.entry.element

/-- The names of a node's fields, in order. -/
def fieldNames : List String := ["label", "path", "range", "element", "children"]

/-- The element of a node: none for null, and the unknown element for what cannot be loaded. -/
def loadElement : Json → Option Element
  | .null => none
  | value => some ((Element.load value).getD .unknown)

/-- A node is a record of its label, path and span, with its element and children if it has any. -/
def load (json : Json) : Option SemanticTree :=
  if json.isRecord 5 && json.fieldsUnique fieldNames then do
    let label ← json.required 0 "label" Json.text?
    let path ← json.required 1 "path" Json.text?
    let span ← json.required 2 "range" Span.load
    let element := (json.fieldAt? 3 "element").bind loadElement
    let children ← match (json.fieldAt? 4 "children").attach with
      | none => some []
      | some ⟨.array items, _found⟩ => items.attach.mapM fun ⟨item, _⟩ => load item
      | some _ => none
    return node { label, path, span, element } children
  else none
termination_by sizeOf json
decreasing_by
  have := Json.sizeOf_lt_of_fieldAt? _found
  have := Json.sizeOf_lt_of_mem_items ‹item ∈ items›
  omega

mutual
/-- The JSON form of a semantic tree. -/
def write : SemanticTree → Json
  | node entry children =>
    .object ([("label", .string entry.label), ("path", .string entry.path),
        ("range", entry.span.write)] ++
      Json.optionalMember "element" Element.write entry.element ++
      Json.listMember "children" id (writeAll children))

/-- The JSON form of each tree. -/
def writeAll : List SemanticTree → List Json
  | [] => []
  | tree :: rest => write tree :: writeAll rest
end

mutual
/-- The nodes reached from a tree by going again and again into the first child that contains a
position, without the tree itself. -/
def descend (position : Position) : SemanticTree → List SemanticTree
  | node _ children => descendAmong position children

/-- The chain through the first of the trees that contains a position. -/
def descendAmong (position : Position) : List SemanticTree → List SemanticTree
  | [] => []
  | tree :: rest =>
    if tree.entry.span.contains position then tree :: descend position tree
    else descendAmong position rest
end

/-- The chain of nodes that contain a position, from the root down; empty if the root does not. -/
def chainAt (tree : SemanticTree) (position : Position) : List SemanticTree :=
  if tree.entry.span.contains position then tree :: descend position tree else []

mutual
/-- All nodes of a tree, in document order. -/
def nodes : SemanticTree → List SemanticTree
  | node entry children => node entry children :: nodesAmong children

/-- All nodes of the trees, in document order. -/
def nodesAmong : List SemanticTree → List SemanticTree
  | [] => []
  | tree :: rest => nodes tree ++ nodesAmong rest
end

end SemanticTree

end Blueprint
