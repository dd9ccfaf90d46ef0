/-!
# Positions and spans

A position is a line and a column, both counted from one; columns count characters. A span
runs from its start to a position just past its last character, or is left open when what
stands there has not been typed yet.

Containment is tested with a leeway that moves only the start of a span to the left
(`Span.containsWithin`), so a cursor resting right before a token still touches it while a
cursor past the end never does. Lines and columns are kept below a fixed limit
(`Position.clamp`).
-/

set_option autoImplicit false

namespace Blueprint

/-- A cursor position: one-based line and column, the column counted in characters. -/
structure Position where
  line : Nat
  column : Nat
deriving DecidableEq, Repr, Inhabited

namespace Position

/-- The greatest line or column that is told apart from larger ones. -/
def limit : Nat := 4294967295

/-- A count kept within the limit of lines and columns. -/
def clamp (count : Nat) : Nat := min count limit

/-- Positions are ordered by line, and by column within a line. -/
instance : LE Position where
  le left right := left.line < right.line ∨ (left.line = right.line ∧ left.column ≤ right.column)

/-- The strict order of positions. -/
instance : LT Position where
  lt left right := left.line < right.line ∨ (left.line = right.line ∧ left.column < right.column)

instance (left right : Position) : Decidable (left ≤ right) :=
  inferInstanceAs (Decidable (_ ∨ _))

instance (left right : Position) : Decidable (left < right) :=
  inferInstanceAs (Decidable (_ ∨ _))

/-- The earlier of two positions. -/
instance : Min Position where
  min left right := if left ≤ right then left else right

/-- The later of two positions. -/
instance : Max Position where
  max left right := if left ≤ right then right else left

/-- Positions compare as their order says. -/
instance : Ord Position where
  compare left right := if left < right then .lt else if right < left then .gt else .eq

/-- The first position of a text. -/
def first : Position := ⟨1, 1⟩

end Position

/-- A stretch of source text. An open span has no known end and covers its line from its start. -/
structure Span where
  start : Position
  stop : Option Position
deriving DecidableEq, Repr, Inhabited

namespace Span

/-- The span between two positions. -/
def closed (start stop : Position) : Span := ⟨start, some stop⟩

/-- The span that starts at a position and has no known end. -/
def openAt (start : Position) : Span := ⟨start, none⟩

/-- Whether the end is unknown. -/
def isOpen (span : Span) : Bool := span.stop.isNone

/-- The end, or the start of a span that is open. -/
def stopOrStart (span : Span) : Position := span.stop.getD span.start

/-- The last line the span touches. -/
def lastLine (span : Span) : Nat := span.stopOrStart.line

/-- Whether the span touches a line. -/
def touchesLine (span : Span) (line : Nat) : Bool :=
  span.start.line ≤ line && line ≤ span.lastLine

/-- Whether a position lies in the span once its start column is moved left by `leeway`.
The end is never moved: the cursor right after the last character is inside, one further is not. -/
def containsWithin (span : Span) (position : Position) (leeway : Nat) : Bool :=
  let startColumn := span.start.column - leeway
  match span.stop with
  | none => position.line == span.start.line && startColumn ≤ position.column
  | some stop =>
    if position.line < span.start.line || stop.line < position.line then false
    else if span.start.line == stop.line then
      startColumn ≤ position.column && position.column ≤ stop.column
    else if position.line == span.start.line then startColumn ≤ position.column
    else if position.line == stop.line then position.column ≤ stop.column
    else true

/-- Containment without leeway. -/
def contains (span : Span) (position : Position) : Bool := span.containsWithin position 0

end Span

end Blueprint
