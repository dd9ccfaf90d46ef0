import Blueprint.Cursor.Style
import Blueprint.Proofs.Conversion.Datum
import Blueprint.Proofs.ParseTree.Walk
import Blueprint.Proofs.Text.Offsets

/-!
# Data written down

The same datum is written in JSON, in flow YAML and in block YAML, and the parser has other words
for its parts each time: a mapping is an `object` or sits in a `flow_node` or a `block_node`, an
item stands for itself or comes behind a dash. `WritesDocument` says when a parse tree over a source
is a datum written in a style.

Punctuation, comments, anchors and tags may stand anywhere in the tree (`ParseTree.isTrivia`), and
where the text of a node matters, the source has it there (`Spells`). Strings and keys are written
in double quotes; what is empty is written in flow style, since a block has something in it.
-/

set_option autoImplicit false

namespace Blueprint

/-! ## Parse trees of data -/

/-- What says nothing: comments, anchors, tags, and nodes without a name, which are punctuation and
so never called a document. -/
def ParseTree.isTrivia (tree : ParseTree) : Bool :=
  !tree.label.missing && !tree.label.error &&
    if tree.label.named then ["comment", "anchor", "tag"].contains tree.label.kind
    else tree.label.kind != "document"

/-- A sound node of a kind, and its children once trivia is left out. -/
structure IsNode (kind : String) (parts : List ParseTree) (tree : ParseTree) : Prop where
  kind_eq : tree.label.kind = kind
  named : tree.label.named = true
  present : tree.label.missing = false
  sound : tree.label.error = false
  parts_eq : tree.children.filter (fun child => !child.isTrivia) = parts

theorem isNode_sound {kind : String} {field : Option String} {start stop : Nat}
    {parts children : List ParseTree}
    (kept : children.filter (fun child => !child.isTrivia) = parts) :
    IsNode kind parts (.sound kind field start stop children) :=
  ⟨rfl, rfl, rfl, rfl, kept⟩

/-- A node stands where the source has a text. -/
def Spells (source : List Char) (tree : ParseTree) (text : List Char) : Prop :=
  Text.Between source tree.label.start tree.label.stop text

namespace Style

/-- The format of a style. -/
def format : Style → Format
  | jsonc => .jsonc
  | flowYaml => .yaml
  | blockYaml => .yaml

/-- The parser's word for a mapping. -/
def mappingKind : Style → String
  | jsonc => "object"
  | flowYaml => "flow_mapping"
  | blockYaml => "block_mapping"

/-- The parser's word for an entry of a mapping. -/
def pairKind : Style → String
  | jsonc => "pair"
  | flowYaml => "flow_pair"
  | blockYaml => "block_mapping_pair"

/-- The parser's word for a sequence. -/
def sequenceKind : Style → String
  | jsonc => "array"
  | flowYaml => "flow_sequence"
  | blockYaml => "block_sequence"

/-- There is no block without anything in it: what is empty is written in flow style. -/
def formOf (style : Style) (isEmpty : Bool) : Style :=
  match style with
  | jsonc => jsonc
  | flowYaml => flowYaml
  | blockYaml => if isEmpty then flowYaml else blockYaml

theorem format_formOf (style : Style) (isEmpty : Bool) :
    (style.formOf isEmpty).format = style.format := by
  cases style <;> cases isEmpty <;> rfl

end Style

/-- A value in the wrapper that its style asks for. -/
def Wraps : Style → ParseTree → ParseTree → Prop
  | .jsonc, inner, outer => outer = inner
  | .flowYaml, inner, outer => IsNode "flow_node" [inner] outer
  | .blockYaml, inner, outer => IsNode "block_node" [inner] outer

/-- A value as an item of a sequence; in block style it comes behind a dash. -/
def HoldsItem : Style → ParseTree → ParseTree → Prop
  | .jsonc, value, part => part = value
  | .flowYaml, value, part => part = value
  | .blockYaml, value, part => IsNode "block_sequence_item" [value] part

namespace Scalar

/-- The text of a scalar as it is written; strings stand in double quotes. -/
def written (scalar : Scalar) : List Char :=
  match scalar.type with
  | .string => '"' :: (scalar.text.toList ++ ['"'])
  | _ => scalar.text.toList

/-- The JSON parser's words for a scalar of a type. -/
def jsonKinds : ScalarType → List String
  | .string => ["string"]
  | .integer => ["number"]
  | .float => ["number"]
  | .boolean => ["true", "false"]
  | .null => ["null"]

/-- The YAML parser's word for the token inside a plain scalar. -/
def tokenKind : ScalarType → String
  | .string => "string_scalar"
  | .integer => "integer_scalar"
  | .float => "float_scalar"
  | .boolean => "boolean_scalar"
  | .null => "null_scalar"

/-- A node is a scalar in JSON. -/
def IsJson (scalar : Scalar) (tree : ParseTree) : Prop :=
  ∃ kind ∈ jsonKinds scalar.type, ∃ parts, IsNode kind parts tree

/-- A node is a scalar in YAML, in double quotes if it is a string and plain otherwise. -/
def IsYaml (scalar : Scalar) (tree : ParseTree) : Prop :=
  match scalar.type with
  | .string => ∃ parts, IsNode "double_quote_scalar" parts tree
  | type => ∃ token parts, IsNode "plain_scalar" [token] tree ∧ IsNode (tokenKind type) parts token

end Scalar

section Writing

variable (style : Style) (source : List Char)

/-- A tree is a scalar written in a style. -/
def WritesScalar (scalar : Scalar) (tree : ParseTree) : Prop :=
  ∃ inner, Wraps (style.formOf true) inner tree ∧ Spells source inner scalar.written ∧
    match style.format with
    | .jsonc => scalar.IsJson inner
    | .yaml => scalar.IsYaml inner

mutual
/-- A tree is a datum written in a style. -/
def Writes : Datum → ParseTree → Prop
  | .scalar value, tree => WritesScalar style source value tree
  | .sequence items, tree =>
    ∃ inner parts, Wraps (style.formOf items.isEmpty) inner tree ∧
      IsNode (style.formOf items.isEmpty).sequenceKind parts inner ∧ WritesItems items parts
  | .mapping entries, tree =>
    ∃ inner parts, Wraps (style.formOf entries.isEmpty) inner tree ∧
      IsNode (style.formOf entries.isEmpty).mappingKind parts inner ∧ WritesEntries entries parts

/-- Trees are the items of a sequence, one after the other. -/
def WritesItems : List Datum → List ParseTree → Prop
  | [], parts => parts = []
  | item :: rest, parts =>
    ∃ part value later, parts = part :: later ∧ HoldsItem style value part ∧ Writes item value ∧
      WritesItems rest later

/-- Trees are the entries of a mapping, one after the other. -/
def WritesEntries : List (String × Datum) → List ParseTree → Prop
  | [], parts => parts = []
  | (key, value) :: rest, parts =>
    ∃ part keyTree valueTree later, parts = part :: later ∧
      IsNode style.pairKind [keyTree, valueTree] part ∧
      keyTree.label.field = some "key" ∧ valueTree.label.field = some "value" ∧
      WritesScalar style source (.ofText key) keyTree ∧ Writes value valueTree ∧
      WritesEntries rest later
end

/-- A tree is a document with a datum, written in a style. -/
def WritesDocument (datum : Datum) (tree : ParseTree) : Prop :=
  match style.format with
  | .jsonc => ∃ inner, IsNode "document" [inner] tree ∧ Writes style source datum inner
  | .yaml =>
    ∃ document inner, IsNode "stream" [document] tree ∧ IsNode "document" [inner] document ∧
      Writes style source datum inner

end Writing

end Blueprint
