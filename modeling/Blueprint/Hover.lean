import Blueprint.Element.Reference
import Blueprint.Semantic

/-!
# What to show under the cursor

Of the semantic nodes around the cursor, the deepest one that has something to show.
-/

set_option autoImplicit false

namespace Blueprint

/-- The node to show, with those around it. -/
structure Hover where
  kind : ElementKind
  node : SemanticTree
  /-- The shallower nodes, from the root down. -/
  ancestors : List SemanticTree
  /-- The deeper nodes, which have nothing to show. -/
  descendants : List SemanticTree

namespace Hover

/-- The deepest node with something to show in a chain that is given from the deep end; `deeper`
are the nodes already passed. -/
def search (deeper : List SemanticTree) : List SemanticTree → Option Hover
  | [] => none
  | node :: shallower =>
    if node.kind.supportsHover then
      some { kind := node.kind, node, ancestors := shallower.reverse, descendants := deeper }
    else search (node :: deeper) shallower

/-- The deepest node with something to show in a chain that is given from the root down. -/
def ofChain? (chain : List SemanticTree) : Option Hover := search [] chain.reverse

/-- The deepest node with something to show at a position. -/
def at? (tree : SemanticTree) (position : Position) : Option Hover :=
  ofChain? (tree.chainAt position)

/-- The element that is shown. -/
def element (hover : Hover) : Option Element := hover.node.entry.element

/-- What the shown element points at. -/
def target? (hover : Hover) : Option ReferenceTarget := hover.element.bind Element.target?

end Hover

end Blueprint
