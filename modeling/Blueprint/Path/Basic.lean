/-!
# Paths

A path is the semantic location of a node: the field names and indices met on the way from
the root, whatever the document's notation. The root has the empty path. A path is written
with a slash before each segment, and an index stands in brackets: `/resources/orders/[0]`.
-/

set_option autoImplicit false

namespace Blueprint

/-- One step of a path. -/
inductive Segment where
  /-- Into the entry of a mapping. -/
  | field (name : String)
  /-- Into an item of a sequence. -/
  | index (number : Nat)
deriving DecidableEq, Repr

namespace Segment

/-- The name of a field segment. -/
def fieldName? : Segment → Option String
  | field name => some name
  | index _ => none

/-- The number of an index segment. -/
def index? : Segment → Option Nat
  | field _ => none
  | index number => some number

/-- A field is written as its name, an index in brackets. -/
def render : Segment → String
  | field name => name
  | index number => "[" ++ number.repr ++ "]"

end Segment

/-- The segments from the root to a node. -/
abbrev Path := List Segment

namespace Path

/-- The path along the given fields. -/
def ofFields (names : List String) : Path := names.map Segment.field

/-- The path with one segment more. -/
def child (path : Path) (segment : Segment) : Path := path ++ [segment]

/-- The path without its last segment; the root stays the root. -/
def parent (path : Path) : Path := path.dropLast

/-- The field name at a place, if there is a field segment there. -/
def fieldAt? (path : Path) (place : Nat) : Option String := path[place]?.bind Segment.fieldName?

/-- The index at a place, if there is an index segment there. -/
def indexAt? (path : Path) (place : Nat) : Option Nat := path[place]?.bind Segment.index?

/-- The written form of a path. -/
def render : Path → String
  | [] => ""
  | segment :: rest => "/" ++ segment.render ++ render rest

end Path

end Blueprint
