import Blueprint.Double
import Blueprint.Json.Basic

/-!
# Numbers in JSON

The text of a number has a sign, digits before the point, and maybe digits after it and an
exponent. As many of its digits are held as fit in 64 bits. Those left over before the point still
count as powers of ten; those after it do not count at all.

A number has a value if double precision can hold it. The held digits and the power of ten are
rounded one by one before they are multiplied, so a number just below the limit may be refused.
-/

set_option autoImplicit false

namespace Blueprint.Json

/-- The parts of a number's text. -/
structure NumberText where
  negative : Bool
  whole : List Char
  /-- The digits after the point, if there is one. -/
  fraction : Option (List Char)
  /-- Whether the exponent is negative, and its digits, if there is one. -/
  exponent : Option (Bool × List Char)

/-- The value of a decimal digit. -/
def digitValue (digit : Char) : Nat := digit.toNat - 48

/-- The value of decimal digits. -/
def digitsValue (digits : List Char) : Nat :=
  digits.foldl (fun value digit => value * 10 + digitValue digit) 0

/-- Put digits behind a value as long as it fits in 64 bits; gives the value and the digits that
are left over. -/
def holdDigits (value : Nat) : List Char → Nat × List Char
  | [] => (value, [])
  | digit :: rest =>
    let longer := value * 10 + digitValue digit
    if longer < 18446744073709551616 then holdDigits longer rest else (value, digit :: rest)

/-- The number `digits * 10 ^ exponent`. -/
structure Scaled where
  digits : Nat
  exponent : Int

namespace Scaled

/-- Whether double precision can hold a number. -/
def fits (number : Scaled) : Bool :=
  number.digits == 0 || number.exponent < 0 ||
    (number.exponent ≤ 308 &&
      Double.nearest number.digits * Double.nearest (Nat.pow 10 number.exponent.toNat) <
        Double.limit)

/-- The number as a decimal. Numbers too close to zero count as zero. -/
def toDecimal (number : Scaled) (negative : Bool) : Decimal :=
  if number.digits == 0 || number.exponent < -400 then ⟨0, 0⟩
  else
    let mantissa : Int := number.digits * Nat.pow 10 number.exponent.toNat
    (Decimal.mk (if negative then -mantissa else mantissa) (-number.exponent).toNat).normal

end Scaled

namespace NumberText

/-- The exponent that is written. -/
def shift (number : NumberText) : Int :=
  match number.exponent with
  | none => 0
  | some (true, digits) => -(digitsValue digits : Int)
  | some (false, digits) => digitsValue digits

/-- The number without its sign, of the digits that are held. -/
def scaled (number : NumberText) : Scaled :=
  let (whole, dropped) := holdDigits 0 number.whole
  let fraction := number.fraction.getD []
  let (digits, ignored) := holdDigits whole fraction
  ⟨digits, number.shift + dropped.length - (fraction.length - ignored.length)⟩

/-- Whether a number is an integer: it has neither point nor exponent and is an integer of 64 bits,
signed if it is negative. Minus zero is none. -/
def isInteger (number : NumberText) : Bool :=
  let scaled := number.scaled
  number.fraction.isNone && number.exponent.isNone && scaled.exponent == 0 &&
    (!number.negative || (0 < scaled.digits && scaled.digits ≤ 9223372036854775808))

/-- The value of a number, unless it is too large. -/
def value? (number : NumberText) : Option Json :=
  let scaled := number.scaled
  if number.isInteger then
    some (.integer (if number.negative then -scaled.digits else scaled.digits))
  else if scaled.fits then some (.decimal (scaled.toDecimal number.negative))
  else none

end NumberText

end Blueprint.Json
