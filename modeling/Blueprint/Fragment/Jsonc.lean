import Blueprint.Fragment.Basic

/-!
# Fragments of JSON documents

A number is a float when it is written with a point or an exponent, and an integer otherwise.
Comments add nothing.
-/

set_option autoImplicit false

namespace Blueprint.Fragment.Jsonc

/-- The type of a number by its text. -/
def numberType (text : List Char) : ScalarType :=
  if text.any fun char => char == '.' || char == 'e' || char == 'E' then .float else .integer

/-- What a named node of a JSON parse tree amounts to. -/
def ofNamed (source : Text.LineTable) (label : ParseNode) (children : List (Visited Fragment)) :
    Fragment :=
  let span := label.spanIn source
  let text := label.textIn source
  let scalar (value : List Char) (type : ScalarType) : Fragment :=
    node ((Draft.scalar (String.ofList value) type span).withConcreteKind label.kind)
  match label.kind with
  | "document" => collapse children
  | "object" => node (mapping span label.kind children)
  | "pair" => pair (.ofChildren span children)
  | "array" => node (sequence span label.kind children)
  | "string" => scalar (Text.unquote '"' text) .string
  | "number" => scalar text (numberType text)
  | "true" | "false" => scalar text .boolean
  | "null" => scalar text .null
  | _ => skip

end Blueprint.Fragment.Jsonc
