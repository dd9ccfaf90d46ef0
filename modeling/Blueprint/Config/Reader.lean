import Blueprint.Config.Basic
import Blueprint.Json.Reader

/-!
# Reading settings

Settings are a record in JSON, read from an object by name or from an array by place, and every
field may be missing. The text is read from the front, so of several faults the first one in the
text is reported. Members of other names are skipped; the same setting given twice does not fit.
-/

set_option autoImplicit false

namespace Blueprint.Config

open Json (skipBlanks skipWord)

/-- The fault of a value that is not of the type expected; it may be malformed as well. -/
def wrongType : List Char → ReadFault
  | [] => .endOfText
  | '[' :: _ => .unfit
  | '{' :: _ => .unfit
  | 'n' :: rest => faultOf (skipWord ['u', 'l', 'l'] rest)
  | 't' :: rest => faultOf (skipWord ['r', 'u', 'e'] rest)
  | 'f' :: rest => faultOf (skipWord ['a', 'l', 's', 'e'] rest)
  | '"' :: rest => faultOf (Json.readString rest)
  | char :: rest =>
    if Json.startsNumber char then faultOf (Json.readNumber (char :: rest)) else .malformed
where
  /-- The fault of reading, or else that of the type. -/
  faultOf {Value : Type} : Except ReadFault Value → ReadFault
    | .error fault => fault
    | .ok _ => .unfit

/-- Read a natural number of at most 32 bits. -/
def readNat (text : List Char) : Except ReadFault (Nat × List Char) :=
  match skipBlanks text with
  | [] => .error .endOfText
  | char :: rest =>
    if Json.startsNumber char then do
      let (number, rest) ← Json.readNumber (char :: rest)
      match number.nat32? with
      | some value => return (value, rest)
      | none => .error .unfit
    else .error (wrongType (char :: rest))

/-- Read a truth value. -/
def readBool (text : List Char) : Except ReadFault (Bool × List Char) :=
  match skipBlanks text with
  | 't' :: rest => (skipWord ['r', 'u', 'e'] rest).map fun rest => (true, rest)
  | 'f' :: rest => (skipWord ['a', 'l', 's', 'e'] rest).map fun rest => (false, rest)
  | text => .error (wrongType text)

/-! ## From an array -/

/-- The text at the next item, or none at the end of the array. -/
def nextItem (first : Bool) (text : List Char) : Except ReadFault (Option (List Char)) :=
  match skipBlanks text with
  | [] => .error .endOfText
  | ']' :: _ => .ok none
  | char :: rest =>
    if first then .ok (some (char :: rest))
    else if char == ',' then
      match skipBlanks rest with
      | [] => .error .endOfText
      | ']' :: _ => .error .malformed
      | text => .ok (some text)
    else .error .malformed

/-- Read settings from an array, after its opening bracket. -/
def readItems (text : List Char) : Except ReadFault (Config × List Char) := do
  match ← nextItem true text with
  | none => return ({}, ← skipWord [']'] (skipBlanks text))
  | some text =>
    let (positionLeeway, text) ← readNat text
    match ← nextItem false text with
    | none => return ({ positionLeeway }, ← skipWord [']'] (skipBlanks text))
    | some text =>
      let (scalarSymbolDetail, text) ← readBool text
      return ({ positionLeeway, scalarSymbolDetail }, ← skipWord [']'] (skipBlanks text))

/-! ## From an object -/

/-- The settings met so far. -/
structure Given where
  positionLeeway : Option Nat := none
  scalarSymbolDetail : Option Bool := none

/-- The settings, with those not given at their usual values. -/
def Given.toConfig (given : Given) : Config :=
  let usual : Config := {}
  { positionLeeway := given.positionLeeway.getD usual.positionLeeway
    scalarSymbolDetail := given.scalarSymbolDetail.getD usual.scalarSymbolDetail }

/-- Read the value of a member, after its name. -/
def readMember (fuel : Nat) (given : Given) (name : String) (text : List Char) :
    Except ReadFault (Given × List Char) :=
  if name == "positionLeeway" then
    if given.positionLeeway.isSome then .error .unfit
    else do
      let (value, text) ← readNat (← skipWord [':'] (skipBlanks text))
      return ({ given with positionLeeway := some value }, text)
  else if name == "scalarSymbolDetail" then
    if given.scalarSymbolDetail.isSome then .error .unfit
    else do
      let (value, text) ← readBool (← skipWord [':'] (skipBlanks text))
      return ({ given with scalarSymbolDetail := some value }, text)
  else do
    let text ← Json.skipValue fuel (← skipWord [':'] (skipBlanks text))
    return (given, text)

/-- Read the members of an object up to its end; before the `first` there is no comma. -/
def readMembers (fuel : Nat) (first : Bool) (given : Given) (text : List Char) :
    Except ReadFault (Given × List Char) :=
  match fuel with
  | 0 => .error .malformed
  | fuel + 1 =>
    match skipBlanks text with
    | [] => .error .endOfText
    | '}' :: rest => .ok (given, rest)
    | char :: rest => do
      let text ← if first then .ok (char :: rest) else skipWord [','] (char :: rest)
      let text ← skipWord ['"'] (skipBlanks text)
      let (name, text) ← Json.readString text
      let (given, text) ← readMember fuel given name text
      readMembers fuel false given text

/-- Read settings. -/
def parse (text : String) : Except ReadFault Config := do
  let chars := text.toList
  match skipBlanks chars with
  | '[' :: rest =>
    let (config, rest) ← readItems rest
    Json.expectEnd rest
    return config
  | '{' :: rest =>
    let (given, rest) ← readMembers (Json.stepsFor chars) true {} rest
    Json.expectEnd rest
    return given.toConfig
  | other => .error (wrongType other)

end Blueprint.Config
