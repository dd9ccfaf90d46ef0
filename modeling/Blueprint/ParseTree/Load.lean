import Blueprint.Json.Record
import Blueprint.ParseTree.Basic

/-!
# Loading parse trees

A parser's result is handed over as an object: whether there was an error, and the nodes in
document order. Each node is an array of its depth, its kind, its flags, the grammar's field and
the byte offsets of its start and end.
-/

set_option autoImplicit false

namespace Blueprint

/-- A node with its depth. The lowest three bits of the flags say whether the node is named,
missing and an error. -/
def ParseNode.load : Json → Option (Nat × ParseNode)
  | .array [depth, kind, flags, field, start, stop] => do
    let flags ← flags.nat?
    let node : ParseNode :=
      { kind := ← kind.text?
        named := flags % 2 == 1
        missing := flags / 2 % 2 == 1
        error := flags / 4 % 2 == 1
        field := ← field.nullable Json.text?
        start := ← start.nat?
        stop := ← stop.nat? }
    return (← depth.nat?, node)
  | _ => none

/-- A parser's result. -/
def Parse.load (json : Json) : Option Parse := do
  let hasError ← json.required 0 "has_error" Json.bool?
  let rows ← json.required 1 "nodes" (Json.list? ParseNode.load)
  let tree ← ParseTree.ofRows? rows
  return { tree, hasError }

end Blueprint
