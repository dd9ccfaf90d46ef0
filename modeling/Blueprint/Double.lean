/-!
# Double precision

The natural numbers that double precision can hold: those of at most 53 bits, followed by any
number of zero bits, below a limit. Values at or above the limit are too large even after rounding.
-/

set_option autoImplicit false

namespace Blueprint.Double

/-- The number of bits that are kept of a value. -/
def precision : Nat := 53

/-- The number of bits at the end of a value that are not kept. -/
def lostBits (value : Nat) : Nat := value.log2 + 1 - precision

/-- The multiple of `unit` closest to a value; halfway between two, the even multiple. -/
def roundTo (unit value : Nat) : Nat :=
  let count := value / unit
  let excess := 2 * (value % unit)
  let roundsUp := unit < excess || (unit == excess && count % 2 == 1)
  (if roundsUp then count + 1 else count) * unit

/-- The value of 53 bits closest to a value; halfway between two, the even one. -/
def nearest (value : Nat) : Nat := roundTo (Nat.pow 2 (lostBits value)) value

/-- The least value that is too large: halfway between the largest that can be held and the next
one of 53 bits. -/
def limit : Nat := Nat.pow 2 1024 - Nat.pow 2 970

end Blueprint.Double
