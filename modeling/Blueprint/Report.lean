import Blueprint.Completion.Basic
import Blueprint.Element.Reference
import Blueprint.Semantic
import Blueprint.Symbol

/-!
# Reports in JSON

The JSON forms of outlines, completions and of what is known about a cursor. Members come in a
fixed order, and names that are none are left out.
-/

set_option autoImplicit false

namespace Blueprint

mutual
/-- The JSON form of a symbol. -/
def Symbol.toJson : Symbol → Json
  | .node entry children =>
    .object ([("name", .string entry.name)] ++
      Json.optionalMember "detail" .string entry.detail ++
      [("kind", .string entry.kind.name), ("range", entry.span.write),
        ("selectionRange", entry.selection.write)] ++
      Json.listMember "children" id (Symbol.toJsonAll children))

/-- The JSON form of each symbol. -/
def Symbol.toJsonAll : List Symbol → List Json
  | [] => []
  | symbol :: rest => Symbol.toJson symbol :: Symbol.toJsonAll rest
end

/-- The JSON form of a completion. -/
def Completion.toJson (completion : Completion) : Json :=
  .object ([("kind", .string completion.kind.name)] ++
    Json.optionalMember "resourceName" .string completion.resourceName ++
    Json.optionalMember "dataSourceName" .string completion.dataSourceName ++
    Json.optionalMember "potentialResourceName" .string completion.potentialResourceName ++
    Json.optionalMember "fieldName" .string completion.fieldName)

/-- The JSON form of the text around a cursor. -/
def CursorLine.toJson (text : CursorLine) : Json :=
  .object
    [("currentLine", .string (String.ofList text.line)),
      ("textBefore", .string (String.ofList text.before)),
      ("textAfter", .string (String.ofList text.after)),
      ("currentWord", .string (String.ofList text.word))]

/-- The JSON form of what a reference points at. -/
def ReferenceTarget.toJson (target : ReferenceTarget) : Json :=
  .object
    [("namespace", .string target.space.name), ("name", Json.orNull .string target.name),
      ("path", .array (target.path.map .string))]

/-- The JSON form of what to show under the cursor. -/
def Hover.toJson (hover : Hover) : Json :=
  .object ([("kind", .string hover.kind.name), ("label", .string hover.node.entry.label)] ++
    Json.optionalMember "reference" ReferenceTarget.toJson hover.target?)

/-- The JSON form of settings. -/
def Config.toJson (config : Config) : Json :=
  .object
    [("positionLeeway", .integer config.positionLeeway),
      ("scalarSymbolDetail", .bool config.scalarSymbolDetail)]

/-- The JSON form of what is known about a cursor. -/
def Context.toJson (context : Context) : Json :=
  .object
    ([("path", .string context.path.render),
        ("nodeKind", Json.orNull (fun node => .string node.kind.title) context.node),
        ("style", .string context.style.name),
        ("position", .string context.slot.name),
        ("typedPrefix", .string (String.ofList context.typed)),
        ("text", context.text.toJson),
        ("completion", (Completion.ofContext context).toJson)] ++
      Json.optionalMember "hover" Hover.toJson context.hover?)

end Blueprint
