/-!
# Settings

How far left of a node a cursor still touches it, and whether an outline shows scalar values.
-/

set_option autoImplicit false

namespace Blueprint

/-- The settings of position queries and outlines. -/
structure Config where
  /-- The columns by which a node's start may be moved left to meet the cursor. -/
  positionLeeway : Nat := 1
  /-- Whether an outline shows the values of scalars. -/
  scalarSymbolDetail : Bool := true
deriving DecidableEq, Repr, Inhabited

end Blueprint
