import Blueprint.Text.Blank
import Blueprint.Text.Lines
import Blueprint.Text.Search

/-!
# The line under the cursor

What the raw text tells about a cursor: its line, cut in two at the cursor, and the word around
it. Nothing here needs the document to parse.

Whether the cursor is in a substitution is told by counting: there are more openings than
closing braces before it.
-/

set_option autoImplicit false

namespace Blueprint

/-- The characters that words are made of. -/
def isWordChar (char : Char) : Bool :=
  char.isAlphanum || char == '_' || char == '.' || char == '-'

/-- The text around a cursor. -/
structure CursorLine where
  /-- The whole line. -/
  line : List Char
  /-- The line up to the cursor. -/
  before : List Char
  /-- The line from the cursor on. -/
  after : List Char
  /-- The run of word characters around the cursor. -/
  word : List Char
deriving DecidableEq, Repr

namespace CursorLine

/-- The text around a cursor that is on no line. -/
def absent : CursorLine := ⟨[], [], [], []⟩

/-- A line cut in two after a number of characters. -/
def cut (line : List Char) (count : Nat) : CursorLine :=
  let before := line.take count
  let after := line.drop count
  { line, before, after
    word := Text.takeEndWhile isWordChar before ++ after.takeWhile isWordChar }

/-- A line without a final carriage return. -/
def dropReturn (line : List Char) : List Char :=
  if line.getLast? == some '\r' then line.dropLast else line

/-- The text around a position. A column past the end of its line counts as the end. -/
def extract (content : List Char) (position : Position) : CursorLine :=
  match position.line with
  | 0 => absent
  | row + 1 =>
    match (Text.lines content)[row]? with
    | none => absent
    | some line => cut (dropReturn line) (position.column - 1)

/-- Whether the line is white space only. -/
def isBlank (text : CursorLine) : Bool := Text.allBlank text.line

/-- The column of the first character that is no space, at most the cursor's. -/
def indentation (text : CursorLine) : Nat := (text.before.takeWhile (· == ' ')).length + 1

end CursorLine

namespace Text

/-- Whether a text ends inside a substitution. -/
def inSubstitution (text : List Char) : Bool := text.count '}' < countPairs '$' '{' text

/-- What has been typed of the substitution that a text ends in; nothing outside of one. -/
def substitutionText (text : List Char) : List Char :=
  if inSubstitution text then (afterLastPair? '$' '{' text).getD [] else []

/-- Whether a key may follow a text. -/
def allowsKey (lead : List Char) : Bool :=
  match lead.getLast? with
  | none => true
  | some char => isBlank char || char == '{' || char == ',' || char == '-'

/-- Whether a text ends with a key, in quotes or not, and a colon. -/
def endsWithKey (text : List Char) (key : String) : Bool :=
  match dropEnd? [':'] (trimEnd text) with
  | none => false
  | some lead =>
    let bare := dropEnd? key.toList lead
    let quoted := dropEnd? (['"'] ++ key.toList ++ ['"']) lead
    bare.any allowsKey || quoted.any allowsKey

end Text

end Blueprint
