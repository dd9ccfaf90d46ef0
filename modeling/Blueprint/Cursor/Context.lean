import Blueprint.Config.Basic
import Blueprint.Cursor.Slot
import Blueprint.Hover
import Blueprint.Tree.Lookup

/-!
# What is known about a cursor

A context joins what the text, the document tree and the semantic tree tell about one position.

In YAML a cursor on a line of white space, or one that nothing but the root covers, has no node
of its own; it is given the node that its indentation places it in. A position outside the
content keeps to the text alone.
-/

set_option autoImplicit false

namespace Blueprint

/-- Everything known about a position of a document. -/
structure Context where
  position : Position
  format : Format
  text : CursorLine
  /-- The tree in which the nodes below stand. -/
  tree : Option Tree
  /-- The deepest node at the cursor. -/
  node : Option Node
  path : Path
  /-- The ancestors of the node, from the root down. -/
  ancestors : List Node
  /-- The node whose value the cursor's indentation places it in; known for YAML only. -/
  enclosing : Option Node
  /-- The semantic nodes around the cursor, from the root down. -/
  semanticChain : List SemanticTree
  /-- Whether the tree is older than the text. -/
  stale : Bool

namespace Context

/-- What the text alone tells. -/
def ofText (content : List Char) (position : Position) (format : Format) : Context :=
  { position, format, text := .extract content position, tree := none, node := none, path := [],
    ancestors := [], enclosing := none, semanticChain := [], stale := false }

/-- The node that indentation places a cursor in, which only matters in YAML. -/
def enclosingNode (lookup : Lookup) (position : Position) (format : Format) (text : CursorLine) :
    Option Node :=
  match format with
  | .yaml => some (lookup.enclosing position.line text.indentation)
  | .jsonc => none

/-- The node at a cursor: the one it touches, unless in YAML this is the root or the line is white
space, when it is the one that indentation tells. -/
def chooseNode (format : Format) (text : CursorLine) (touched enclosing : Option Node) :
    Option Node :=
  match touched with
  | none => enclosing
  | some node =>
    if format == .jsonc || (!node.isRoot && !text.isBlank) then some node
    else enclosing.or (some node)

/-- What is known about a position of a document, given its current text. -/
def build (lookup : Lookup) (content : List Char) (position : Position) (format : Format)
    (semantic : Option SemanticTree) (config : Config) : Context :=
  let bare := ofText content position format
  if position.line == 0 || Text.lineCount content < position.line then bare
  else
    let enclosing := enclosingNode lookup position format bare.text
    let touched := lookup.deepestAt position config.positionLeeway
    let node := chooseNode format bare.text touched enclosing
    { bare with
      tree := some lookup.tree
      node
      enclosing
      path := (node.map lookup.tree.pathOf).getD []
      ancestors := ((node.map lookup.tree.ancestors).getD []).reverse
      semanticChain := (semantic.map fun root => root.chainAt position).getD [] }

/-- The text before the cursor. -/
def before (context : Context) : List Char := context.text.before

/-- Whether the cursor is in a substitution. -/
def inSubstitution (context : Context) : Bool := Text.inSubstitution context.before

/-- The deepest semantic node around the cursor. -/
def semanticNode? (context : Context) : Option SemanticTree := context.semanticChain.getLast?

/-- The element of the deepest semantic node around the cursor. -/
def element? (context : Context) : Option Element :=
  context.semanticNode?.bind fun tree => tree.entry.element

/-- The node and its ancestors, the deepest first. -/
def chain (context : Context) : List Node := context.node.toList ++ context.ancestors.reverse

/-- The container that a node is; the document counts as a mapping. -/
def containerOf? (node : Node) : Option Container :=
  match node.kind with
  | .mapping | .document => some .mapping
  | .sequence => some .sequence
  | _ => none

/-- The nearest container around the cursor. -/
def container? (context : Context) : Option Container := context.chain.findSome? containerOf?

/-- The writing style at the cursor. -/
def style (context : Context) : Style :=
  .detect context.format (context.chain.filterMap fun node => node.entry.concreteKind)
    context.before

/-- What is being typed at the cursor. -/
def slot (context : Context) : Slot :=
  .detect context.style context.before context.text.after context.container?

/-- What has been typed of it. -/
def typed (context : Context) : List Char := context.slot.typed context.style context.before

/-- The node to which a key typed at the cursor would be added: by indentation in blocks, the
nearest mapping otherwise. -/
def fieldContainer? (context : Context) : Option Node :=
  match context.style with
  | .blockYaml => context.enclosing.or context.node
  | .flowYaml | .jsonc => context.chain.find? fun node => containerOf? node == some .mapping

/-- The path of a node of the context's tree. -/
def pathOf (context : Context) (node : Node) : Path :=
  (context.tree.map fun tree => tree.pathOf node).getD []

/-- What to show under the cursor. -/
def hover? (context : Context) : Option Hover := Hover.ofChain? context.semanticChain

end Context

end Blueprint
