import Blueprint.Format
import Blueprint.Fragment.Jsonc
import Blueprint.Fragment.Yaml
import Blueprint.ParseTree.Cursor
import Blueprint.Tree.Basic

/-!
# From parse trees to document trees

The fragments of a parse tree are computed from the leaves up by one walk; what the root
amounts to becomes the content of the document node, which spans the whole source. Errors in
the source never stop this: they end up as error regions of the tree.
-/

set_option autoImplicit false

namespace Blueprint

namespace Fragment

/-- What a node of a parse tree amounts to: nothing if the parser made it up, an error region if
it made no sense, punctuation if it has no name, and otherwise what the format says. -/
def ofNode (format : Format) (source : Text.LineTable) (label : ParseNode)
    (children : List (Visited Fragment)) : Fragment :=
  if label.missing then skip
  else if label.error then node (errorRegion (label.spanIn source) children)
  else if !label.named then token label.kind
  else match format with
    | .yaml => Yaml.ofNamed source label children
    | .jsonc => Jsonc.ofNamed source label children

/-- The document with a fragment as its content. -/
def toDocument (source : Text.LineTable) (content : Fragment) : Draft :=
  let span := Span.closed .first (Text.endOf source.text)
  let children := match content with
    | node draft => [draft]
    | pair entry => [entry.toMapping]
    | _ => []
  .node (.ofKind .document span) children

end Fragment

/-- The draft of the document that a parse tree describes. -/
def ParseTree.toDraft (format : Format) (source : Text.LineTable) (tree : ParseTree) : Draft :=
  let content := (tree.traverse (Fragment.ofNode format source)).getD .skip
  content.toDocument source

/-- The document tree of a source and what a parser made of it. -/
def Tree.ofParse (source : String) (format : Format) (parse : Parse) : Tree :=
  .ofDraft (parse.tree.toDraft format (.ofText source.toList)) parse.hasError

end Blueprint
