import Blueprint.Position
import Blueprint.Text.Bytes

/-!
# Lines of a text

Lines end at a newline character, and a final newline opens one more, empty, line.

A place in a text is given in three ways: by its byte offset, by a parser's point (a row and a
byte column, both from zero), and by a `Position`. `positionAt` goes from an offset to a
position by counting what stands before it. `LineTable.position` goes from a point to a
position through a table of the offsets at which lines start.
-/

set_option autoImplicit false

namespace Blueprint.Text

/-- How many newlines a text has. -/
def newlineCount (text : List Char) : Nat := text.count '\n'

/-- How many lines an editor shows for a text. -/
def lineCount (text : List Char) : Nat := Position.clamp (newlineCount text + 1)

/-- The lines of a text, without the newlines that end them; there is always at least one. -/
def lines : List Char → List (List Char)
  | [] => [[]]
  | char :: rest =>
    if char = '\n' then [] :: lines rest
    else match lines rest with
      | [] => [[char]]
      | line :: later => (char :: line) :: later

/-- The part of a text after its last newline. -/
def lastLineOf (text : List Char) : List Char := (text.reverse.takeWhile (· != '\n')).reverse

/-- The position right after a text. -/
def endOf (text : List Char) : Position :=
  ⟨Position.clamp (newlineCount text + 1), Position.clamp ((lastLineOf text).length + 1)⟩

/-- The position of a byte offset, if it falls between two characters. -/
def positionAt (text : List Char) (offset : Nat) : Option Position :=
  (cutAt text offset).map fun parts => endOf parts.1

/-- A place as parsers report it: a row and a byte column, both from zero. -/
structure Point where
  row : Nat
  column : Nat
deriving DecidableEq, Repr

/-- The point of an offset, reading on from `here` on the row `row`, which starts at `lineStart`. -/
def pointFrom (offset row lineStart here : Nat) : List Char → Point
  | [] => ⟨row, offset - lineStart⟩
  | char :: rest =>
    if offset ≤ here then ⟨row, offset - lineStart⟩
    else if char = '\n' then pointFrom offset (row + 1) (here + 1) (here + 1) rest
    else pointFrom offset row lineStart (here + char.utf8Size) rest

/-- The point of a byte offset: the newlines before it, and its distance to the last of them. -/
def pointAt (text : List Char) (offset : Nat) : Point := pointFrom offset 0 0 0 text

/-- The offsets right after each newline of a text that begins at `here`. -/
def lineStartsFrom (here : Nat) : List Char → List Nat
  | [] => []
  | char :: rest =>
    if char = '\n' then (here + 1) :: lineStartsFrom (here + 1) rest
    else lineStartsFrom (here + char.utf8Size) rest

/-- A text with the byte offsets at which its lines start. -/
structure LineTable where
  text : List Char
  byteLength : Nat
  starts : Array Nat

namespace LineTable

/-- The table of a text. -/
def ofText (text : List Char) : LineTable :=
  { text, byteLength := Text.byteLength text, starts := (0 :: lineStartsFrom 0 text).toArray }

/-- The number of lines in the table. -/
def lineCount (table : LineTable) : Nat := table.starts.size

/-- The position of a parser's point. Rows past the end count as the last one, and a byte column
inside a character is taken as it is. -/
def position (table : LineTable) (point : Point) : Position :=
  let row := min point.row (table.starts.size - 1)
  let lineStart := table.starts[row]?.getD 0
  let stop := min (lineStart + point.column) table.byteLength
  let column := match slice? table.text lineStart stop with
    | some before => before.length
    | none => point.column
  ⟨Position.clamp (row + 1), Position.clamp (column + 1)⟩

end LineTable

end Blueprint.Text
