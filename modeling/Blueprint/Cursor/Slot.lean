import Blueprint.Cursor.Line
import Blueprint.Cursor.Style

/-!
# What is being typed

A slot says what a cursor is in the middle of: a key, a value, an item of a sequence, a string,
or an empty container. It is read off the text before and after the cursor, each writing style
having its own marks, and the container around the cursor settles what the text leaves open.
-/

set_option autoImplicit false

namespace Blueprint

/-- What is being typed at a cursor. -/
inductive Slot where
  | keyField
  | valueField
  | sequenceItem
  | stringContent
  | emptyContainer
  | unknown
deriving DecidableEq, Repr

namespace Slot

/-- The name of a slot. -/
def name : Slot → String
  | keyField => "key-field"
  | valueField => "value-field"
  | sequenceItem => "sequence-item"
  | stringContent => "string-content"
  | emptyContainer => "empty-container"
  | unknown => "unknown"

/-- What a container is filled with. -/
def ofContainer : Option Container → Slot
  | some .mapping => keyField
  | some .sequence => sequenceItem
  | none => unknown

/-- The slot after an entry that has begun: its value if one colon divides it, else a key. -/
def ofEntry (entry : List Char) : Slot :=
  match Text.afterMappingColon? entry with
  | some value => if (Text.afterMappingColon? value).isNone then valueField else keyField
  | none => keyField

/-- The slot in block style. A dash begins an item, which may itself begin a mapping. -/
def inBlock (before : List Char) (container : Option Container) : Slot :=
  let trimmed := Text.trim before
  match trimmed with
  | [] => ofContainer container
  | ['-'] => sequenceItem
  | '-' :: ' ' :: rest =>
    if (Text.afterMappingColon? rest).isNone then sequenceItem else ofEntry rest
  | _ => ofEntry trimmed

/-- Whether the cursor is between the brackets of an empty container. -/
def isBetweenBrackets (before after : List Char) : Bool :=
  match (Text.trimEnd before).getLast?, (Text.trimStart after).head? with
  | some '[', some ']' => true
  | some '{', some '}' => true
  | _, _ => false

/-- The slot inside a string, from the text before its opening quote. -/
def inString (lead : List Char) (container : Option Container) : Slot :=
  match (Text.trimEnd lead).getLast? with
  | some ':' => valueField
  | some '[' => stringContent
  | some '{' => keyField
  | _ => if container == some .sequence then stringContent else keyField

/-- Whether a character ends the value after a colon. -/
def endsValue (char : Char) : Bool :=
  char == ',' || char == '{' || char == '[' || char == '}' || char == ']'

/-- The slot outside strings when the text before the cursor ends in no mark: a value if only that
stands after the last colon, else what the container takes. -/
def afterWord (before : List Char) (container : Option Container) : Slot :=
  match Text.lastColon? before with
  | some colon =>
    if (before.drop (colon + 1)).any endsValue then ofContainer container else valueField
  | none => ofContainer container

/-- The slot in flow style, outside strings, by the last mark before the cursor. -/
def afterMark (before : List Char) (container : Option Container) : Slot :=
  match (Text.trimEnd before).getLast? with
  | some '{' => keyField
  | some '[' => sequenceItem
  | some ',' => if container == some .mapping then keyField else sequenceItem
  | some ':' => valueField
  | _ => afterWord before container

/-- The slot in flow style. -/
def inFlow (before after : List Char) (container : Option Container) : Slot :=
  if isBetweenBrackets before after then emptyContainer
  else match Text.openQuote? before with
    | some quote => inString (before.take quote) container
    | none => afterMark before container

/-- The container that a bracket opens. -/
def containerOf (bracket : Char) : Container := if bracket == '[' then .sequence else .mapping

/-- The slot at a cursor. In flow style a bracket left open on the line tells the container. -/
def detect (style : Style) (before after : List Char) (container : Option Container) : Slot :=
  match style with
  | .blockYaml => inBlock before container
  | .flowYaml | .jsonc =>
    inFlow before after (((Text.openBracket? before).map containerOf).or container)

/-- What has been typed of the slot's content, blanks and quotes before it included. -/
def rawTyped (slot : Slot) (style : Style) (before : List Char) : List Char :=
  match slot with
  | sequenceItem =>
    if style == .blockYaml then (Text.afterLastPair? '-' ' ' before).getD (Text.trimStart before)
    else (Text.afterLast? (fun char => char == ',' || char == '[') before).getD before
  | stringContent => (Text.afterLast? (· == '"') before).getD []
  | keyField => Text.takeEndWhile isWordChar before
  | valueField => (Text.afterLast? (· == ':') before).getD []
  | emptyContainer | unknown => []

/-- A text without one quote at its start. -/
def dropQuote : List Char → List Char
  | [] => []
  | char :: rest => if char == '"' || char == '\x27' then rest else char :: rest

/-- What has been typed of the slot's content. -/
def typed (slot : Slot) (style : Style) (before : List Char) : List Char :=
  dropQuote (Text.trimStart (slot.rawTyped style before))

end Slot

end Blueprint
