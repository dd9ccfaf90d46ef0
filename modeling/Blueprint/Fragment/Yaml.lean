import Blueprint.Fragment.Basic

/-!
# Fragments of YAML documents

Mappings and sequences come in block and in flow form. A plain scalar gets its type from the
token inside it, a single-quoted one has its doubled quotes undone, and of a stream only the
first document counts.
-/

set_option autoImplicit false

namespace Blueprint.Fragment.Yaml

/-- The quote of a single-quoted scalar. -/
def singleQuote : Char := '\x27'

/-- A text with every two single quotes in a row, from the left, made into one. -/
def undouble : List Char → List Char
  | [] => []
  | [last] => [last]
  | first :: second :: rest =>
    if first == singleQuote && second == singleQuote then singleQuote :: undouble rest
    else first :: undouble (second :: rest)

/-- The first document of a stream and all its error regions. -/
def keepFirstDocument : List (Visited Fragment) → List (Visited Fragment)
  | [] => []
  | child :: rest =>
    if child.kind == "document" then
      child :: rest.filter fun later => later.kind == "ERROR"
    else if child.kind == "ERROR" then child :: keepFirstDocument rest
    else keepFirstDocument rest

/-- A scalar made of a node. -/
def scalar (kind : String) (span : Span) (value : List Char) (type : ScalarType) : Fragment :=
  node ((Draft.scalar (String.ofList value) type span).withConcreteKind kind)

/-- What a named node of a YAML parse tree amounts to. Comments, anchors, tags and the like add
nothing. -/
def ofNamed (source : Text.LineTable) (label : ParseNode) (children : List (Visited Fragment)) :
    Fragment :=
  let span := label.spanIn source
  match label.kind with
  | "stream" => collapse (keepFirstDocument children)
  | "document" | "block_node" | "flow_node" => collapse children
  | "block_mapping" | "flow_mapping" => node (mapping span label.kind children)
  | "block_mapping_pair" | "flow_pair" => pair (.ofChildren span children)
  | "block_sequence" | "flow_sequence" => node (sequence span label.kind children)
  | "block_sequence_item" => item (children.findSome? fun child => child.result.draft?) span
  | "plain_scalar" =>
    let type := (children.findSome? fun child => child.result.tag?).getD .string
    scalar label.kind span (label.textIn source) type
  | "string_scalar" => tag .string
  | "integer_scalar" => tag .integer
  | "float_scalar" => tag .float
  | "boolean_scalar" => tag .boolean
  | "null_scalar" => tag .null
  | "double_quote_scalar" =>
    scalar label.kind span (Text.unquote '"' (label.textIn source)) .string
  | "single_quote_scalar" =>
    scalar label.kind span (undouble (Text.unquote singleQuote (label.textIn source))) .string
  | "block_scalar" | "alias" => scalar label.kind span (label.textIn source) .string
  | _ => skip

end Blueprint.Fragment.Yaml
