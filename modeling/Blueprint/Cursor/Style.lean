import Blueprint.Format
import Blueprint.Text.Blank
import Blueprint.Text.Search

/-!
# Writing styles

YAML is written in blocks or, inside brackets, in flow style; JSON is always in flow style. The
style at a cursor is told by an open bracket before it on its line, and otherwise by the kinds
of the nodes around it.

The scanners of this module read a line up to the cursor and keep track of double quotes.
-/

set_option autoImplicit false

namespace Blueprint

/-- The writing style at a cursor. -/
inductive Style where
  | blockYaml
  | flowYaml
  | jsonc
deriving DecidableEq, Repr

namespace Style

/-- The name of a style. -/
def name : Style → String
  | blockYaml => "block-yaml"
  | flowYaml => "flow-yaml"
  | jsonc => "jsonc"

/-- Whether containers are written in brackets. -/
def isFlow : Style → Bool
  | blockYaml => false
  | flowYaml | jsonc => true

end Style

/-- The container around a cursor. -/
inductive Container where
  | mapping
  | sequence
deriving DecidableEq, Repr

/-- The name of a container. -/
def Container.name : Container → String
  | mapping => "mapping"
  | sequence => "sequence"

namespace Text

/-- What follows the first colon of a text that divides a key from its value: one outside double
quotes, before a space or at the end. -/
def afterMappingColonFrom (quoted : Bool) : List Char → Option (List Char)
  | [] => none
  | char :: rest =>
    if char == '"' then afterMappingColonFrom (!quoted) rest
    else if char == ':' && !quoted && rest.head?.all (· == ' ') then some rest
    else afterMappingColonFrom quoted rest

/-- What follows the colon that divides a key from its value. -/
def afterMappingColon? (text : List Char) : Option (List Char) := afterMappingColonFrom false text

/-- The place of the quote that is open after reading on from the place `here`. `opened` is the
quote open so far, and `escaped` says that a backslash stands right before. -/
def openQuoteFrom (here : Nat) (opened : Option Nat) (escaped : Bool) : List Char → Option Nat
  | [] => opened
  | char :: rest =>
    if char == '\\' && opened.isSome then openQuoteFrom (here + 1) opened (!escaped) rest
    else if char == '"' && !escaped then
      let opened := if opened.isSome then none else some here
      openQuoteFrom (here + 1) opened false rest
    else openQuoteFrom (here + 1) opened false rest

/-- The place of a double quote that is not closed. In a string a backslash escapes a quote. -/
def openQuote? (text : List Char) : Option Nat := openQuoteFrom 0 none false text

/-- The place of the last colon outside double quotes, reading on from the place `here`. -/
def lastColonFrom (here : Nat) (quoted : Bool) (last : Option Nat) : List Char → Option Nat
  | [] => last
  | char :: rest =>
    if char == '"' then lastColonFrom (here + 1) (!quoted) last rest
    else if char == ':' && !quoted then lastColonFrom (here + 1) quoted (some here) rest
    else lastColonFrom (here + 1) quoted last rest

/-- The place of the last colon outside double quotes. -/
def lastColon? (text : List Char) : Option Nat := lastColonFrom 0 false none text

/-- The brackets left open, innermost first, after reading on; `stack` are those open so far. -/
def openBracketsFrom (quoted : Bool) (stack : List Char) : List Char → List Char
  | [] => stack
  | char :: rest =>
    if char == '"' then openBracketsFrom (!quoted) stack rest
    else if quoted then openBracketsFrom quoted stack rest
    else if char == '{' || char == '[' then openBracketsFrom quoted (char :: stack) rest
    else if char == '}' || char == ']' then openBracketsFrom quoted stack.tail rest
    else openBracketsFrom quoted stack rest

/-- The innermost bracket that is left open. -/
def openBracket? (text : List Char) : Option Char := (openBracketsFrom false [] text).head?

end Text

namespace Style

/-- The kinds of nodes written in flow style. -/
def flowKinds : List String := ["flow_mapping", "flow_sequence", "flow_pair"]

/-- The kinds of nodes written in blocks. -/
def blockKinds : List String :=
  ["block_mapping", "block_mapping_pair", "block_sequence", "block_sequence_item"]

/-- The style of the first kind that tells one; blocks if none does. -/
def ofKinds : List String → Style
  | [] => blockYaml
  | kind :: rest =>
    if flowKinds.contains kind then flowYaml
    else if blockKinds.contains kind then blockYaml
    else ofKinds rest

/-- The style at a cursor, from the parser's kinds of the nodes around it, the deepest first, and
the text before it. -/
def detect (format : Format) (kinds : List String) (before : List Char) : Style :=
  match format with
  | .jsonc => jsonc
  | .yaml => if (Text.openBracket? before).isSome then flowYaml else ofKinds kinds

end Style

end Blueprint
