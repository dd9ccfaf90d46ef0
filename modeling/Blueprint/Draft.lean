import Blueprint.Position
import Blueprint.Path.Basic

/-!
# Drafts of document trees

A document is the same tree whatever its notation: mappings, sequences and scalars under one
document node, with the regions that could not be parsed kept as nodes of their own. A draft
is such a tree before its nodes are numbered: an `Entry` at every node, and the drafts of the
children below it in document order.
-/

set_option autoImplicit false

namespace Blueprint

/-- The structural kind of a node. -/
inductive NodeKind where
  | document
  | mapping
  | sequence
  | scalar
  /-- A mapping key that the parser could not pair with a value. -/
  | key
  /-- A region that the parser reported as erroneous. -/
  | error
deriving DecidableEq, Repr

namespace NodeKind

/-- Mappings and sequences are containers. -/
def isContainer : NodeKind → Bool
  | mapping | sequence => true
  | _ => false

/-- The name of a kind. -/
def name : NodeKind → String
  | document => "document"
  | mapping => "mapping"
  | sequence => "sequence"
  | scalar => "scalar"
  | key => "key"
  | error => "error"

/-- The name of a kind as a title. -/
def title : NodeKind → String
  | document => "Document"
  | mapping => "Mapping"
  | sequence => "Sequence"
  | scalar => "Scalar"
  | key => "Key"
  | error => "Error"

/-- Every kind. -/
def all : List NodeKind := [document, mapping, sequence, scalar, key, error]

/-- The kind of a name. -/
def ofName? (text : String) : Option NodeKind := all.find? fun kind => kind.name == text

end NodeKind

/-- The type of a scalar's value. -/
inductive ScalarType where
  | string
  | integer
  | float
  | boolean
  | null
deriving DecidableEq, Repr

namespace ScalarType

/-- The name of a scalar type. -/
def name : ScalarType → String
  | string => "string"
  | integer => "integer"
  | float => "float"
  | boolean => "boolean"
  | null => "null"

/-- Every scalar type. -/
def all : List ScalarType := [string, integer, float, boolean, null]

/-- The scalar type of a name. -/
def ofName? (text : String) : Option ScalarType := all.find? fun type => type.name == text

end ScalarType

/-- The part a node plays in its parent. Only entries and items add a segment to a path. -/
inductive Role where
  /-- The value of a mapping's entry. -/
  | field (name : String)
  /-- An item of a sequence. -/
  | item (number : Nat)
  /-- Neither: the root, the content of a document, a loose piece of an error region. -/
  | loose
deriving DecidableEq, Repr

namespace Role

/-- The segment that a role adds to a path. -/
def segment? : Role → Option Segment
  | field name => some (.field name)
  | item number => some (.index number)
  | loose => none

/-- The name of an entry. -/
def fieldName? : Role → Option String
  | field name => some name
  | _ => none

/-- The number of an item. -/
def index? : Role → Option Nat
  | item number => some number
  | _ => none

end Role

/-- What a node says of itself, apart from its place in the tree. -/
structure Entry where
  kind : NodeKind
  span : Span
  /-- The span of the key, for the value of a mapping's entry. -/
  keySpan : Option Span
  /-- The text of a scalar or key. -/
  value : Option String
  scalarType : Option ScalarType
  role : Role
  isError : Bool
  /-- The parser's kind of the node this one was made from. -/
  concreteKind : Option String
deriving DecidableEq, Repr

namespace Entry

/-- A node of a kind with nothing else known; a node of kind `error` is an error. -/
def ofKind (kind : NodeKind) (span : Span) : Entry :=
  { kind, span, keySpan := none, value := none, scalarType := none, role := .loose,
    isError := kind == .error, concreteKind := none }

/-- Where the entry begins: at the key if there is one, at the node otherwise. -/
def entryStart (entry : Entry) : Position := (entry.keySpan.getD entry.span).start

/-- Whether the node stands for a value that has not been written yet. -/
def isMissingValue (entry : Entry) : Bool :=
  entry.kind == .scalar && entry.scalarType == some .null && entry.value.all String.isEmpty

end Entry

/-- A node with everything below it. -/
inductive Draft where
  | node (entry : Entry) (children : List Draft)
deriving Repr

namespace Draft

/-- What the topmost node says of itself. -/
def entry : Draft → Entry
  | node entry _ => entry

/-- The drafts right below the topmost node. -/
def children : Draft → List Draft
  | node _ children => children

@[simp] theorem entry_node (entry : Entry) (children : List Draft) :
    (node entry children).entry = entry := rfl

@[simp] theorem children_node (entry : Entry) (children : List Draft) :
    (node entry children).children = children := rfl

/-- The draft with the topmost node changed. -/
def mapEntry (draft : Draft) (change : Entry → Entry) : Draft :=
  node (change draft.entry) draft.children

/-- A node of a kind with nothing below it. -/
def ofKind (kind : NodeKind) (span : Span) : Draft := node (.ofKind kind span) []

/-- A scalar. -/
def scalar (value : String) (type : ScalarType) (span : Span) : Draft :=
  node { Entry.ofKind .scalar span with value := some value, scalarType := some type } []

/-- The placeholder for the value of an entry or item that has no content yet. -/
def missing (span : Span) : Draft := scalar "" .null span

/-- The draft as the value of a mapping's entry. -/
def asField (draft : Draft) (name : String) (keySpan : Option Span) : Draft :=
  draft.mapEntry fun entry => { entry with role := .field name, keySpan }

/-- The draft as an item of a sequence. -/
def asItem (draft : Draft) (number : Nat) : Draft :=
  draft.mapEntry fun entry => { entry with role := .item number }

/-- The draft with the parser's kind noted. -/
def withConcreteKind (draft : Draft) (kind : String) : Draft :=
  draft.mapEntry fun entry => { entry with concreteKind := some kind }

/-- The draft with more children after its own. -/
def append (draft : Draft) (more : List Draft) : Draft := node draft.entry (draft.children ++ more)

mutual
/-- The number of nodes of a draft. -/
def size : Draft → Nat
  | node _ children => sizeAll children + 1

/-- The number of nodes of a list of drafts. -/
def sizeAll : List Draft → Nat
  | [] => 0
  | draft :: rest => draft.size + sizeAll rest
end

end Draft

end Blueprint
