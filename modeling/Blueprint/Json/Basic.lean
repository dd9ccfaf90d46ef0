/-!
# JSON values

A JSON value with its objects as they are written: members in order, and a name may come twice.
Numbers written without a point or an exponent are integers; all others are decimals.

`canonical` keeps the last of the members with one name and puts members in the order of their
names.
-/

set_option autoImplicit false

namespace Blueprint

/-- The number `mantissa / 10 ^ scale`. -/
structure Decimal where
  mantissa : Int
  scale : Nat
deriving DecidableEq, Repr

namespace Decimal

/-- Drop up to `count` zeros at the end of the fraction. -/
def shorten (mantissa : Int) : (count : Nat) → Decimal
  | 0 => ⟨mantissa, 0⟩
  | count + 1 => if mantissa % 10 == 0 then shorten (mantissa / 10) count else ⟨mantissa, count + 1⟩

/-- The decimal with no zero at the end of its fraction. -/
def normal (decimal : Decimal) : Decimal := shorten decimal.mantissa decimal.scale

/-- The decimal of an integer. -/
def ofInt (value : Int) : Decimal := ⟨value, 0⟩

/-- The digits with a point before the last `scale` of them; a whole number keeps one zero. -/
def render (decimal : Decimal) : String :=
  let digits := (toString decimal.mantissa.natAbs).toList
  let padded := List.replicate (decimal.scale + 1 - digits.length) '0' ++ digits
  let whole := padded.take (padded.length - decimal.scale)
  let fraction := padded.drop (padded.length - decimal.scale)
  let sign := if decimal.mantissa < 0 then "-" else ""
  sign ++ String.ofList whole ++ "." ++ String.ofList (if fraction.isEmpty then ['0'] else fraction)

end Decimal

/-- A JSON value. -/
inductive Json where
  | null
  | bool (value : Bool)
  | integer (value : Int)
  | decimal (value : Decimal)
  | string (value : String)
  | array (items : List Json)
  | object (members : List (String × Json))
deriving Repr, Inhabited

namespace Json

/-- Put a member into members in the order of their names, in place of one with the same name. -/
def insertMember {Value : Type} (member : String × Value) :
    List (String × Value) → List (String × Value)
  | [] => [member]
  | first :: rest =>
    if member.1 < first.1 then member :: first :: rest
    else if member.1 == first.1 then member :: rest
    else first :: insertMember member rest

/-- The last member of each name, in the order of names. -/
def sortMembers {Value : Type} (members : List (String × Value)) : List (String × Value) :=
  members.foldl (fun sorted member => insertMember member sorted) []

mutual
/-- The value with the members of its objects in the order of names, the last of each name. -/
def canonical : Json → Json
  | array items => array (canonicalItems items)
  | object members => object (sortMembers (canonicalMembers members))
  | null => null
  | bool value => bool value
  | integer value => integer value
  | decimal value => decimal value
  | string value => string value

/-- The canonical form of each item. -/
def canonicalItems : List Json → List Json
  | [] => []
  | item :: rest => canonical item :: canonicalItems rest

/-- The canonical form of each member's value. -/
def canonicalMembers : List (String × Json) → List (String × Json)
  | [] => []
  | (name, value) :: rest => (name, canonical value) :: canonicalMembers rest
end

/-- The value of the last member with a name. -/
def lastMember? (name : String) (members : List (String × Json)) : Option Json :=
  (members.reverse.find? fun member => member.1 == name).map Prod.snd

/-! ## Plain values -/

/-- The text of a string. -/
def text? : Json → Option String
  | string value => some value
  | _ => none

/-- The value of a truth value. -/
def bool? : Json → Option Bool
  | bool value => some value
  | _ => none

/-- An integer of at most 64 bits, sign included. -/
def int64? : Json → Option Int
  | integer value =>
    if -9223372036854775808 ≤ value && value ≤ 9223372036854775807 then some value else none
  | _ => none

/-- A natural number of any size. -/
def nat? : Json → Option Nat
  | integer value => if 0 ≤ value then some value.toNat else none
  | _ => none

/-- A natural number of at most 32 bits. -/
def nat32? : Json → Option Nat
  | integer value => if 0 ≤ value && value ≤ 4294967295 then some value.toNat else none
  | _ => none

/-- Any number, as a decimal. -/
def decimal? : Json → Option Decimal
  | integer value => some (.ofInt value)
  | decimal value => some value.normal
  | _ => none

/-- The items of an array, each read alike. -/
def list? {Value : Type} (read : Json → Option Value) : Json → Option (List Value)
  | array items => items.mapM read
  | _ => none

/-- The members of an object in the order of names, each value read alike. -/
def map? {Value : Type} (read : Json → Option Value) : Json → Option (List (String × Value))
  | object members => (sortMembers members).mapM fun member => do
      let value ← read member.2
      return (member.1, value)
  | _ => none

/-- A value that may also be null. -/
def nullable {Value : Type} (read : Json → Option Value) : Json → Option (Option Value)
  | null => some none
  | value => (read value).map some

end Json

end Blueprint
