import Blueprint.Json.Reader
import Blueprint.Semantic

/-!
# Reading semantic trees

Of the text of a semantic tree only the fields of its nodes, spans and positions are read. What
other members hold is skipped, so it may be anything that JSON allows. An element is read as a
whole, with members that it does not need.
-/

set_option autoImplicit false

namespace Blueprint

/-- The parts of a semantic tree's text. -/
inductive SemanticPart where
  | node
  | children
  | span
  | position
  /-- A value that is read as a whole. -/
  | value
deriving DecidableEq, Repr

namespace SemanticPart

/-- What the fields of a record are, by name and in order. -/
def fields : SemanticPart → List (String × SemanticPart)
  | node =>
    [("label", value), ("path", value), ("range", span), ("element", value),
      ("children", children)]
  | span => [("start", position), ("end", position)]
  | position => [("line", value), ("column", value)]
  | children | value => []

/-- What an item of an array is: the field at its place if the array stands for a record. -/
def item (part : SemanticPart) (place : Nat) : SemanticPart :=
  match part with
  | children => node
  | record => ((record.fields[place]?).map Prod.snd).getD value

/-- What a member of an object is; records skip members that are none of their fields. -/
def member? (part : SemanticPart) (name : String) : Option SemanticPart :=
  match part with
  | children | value => some value
  | record => record.fields.lookup name

/-- Fields are read, and what is none of them is skipped. -/
def selection : Json.Selection SemanticPart := { item, member? }

end SemanticPart

/-- The semantic tree that a text holds, if it holds one. -/
def SemanticTree.parse? (text : String) : Option SemanticTree :=
  (Json.parseSelected SemanticPart.selection .node text).toOption.bind SemanticTree.load

end Blueprint
