import Blueprint.Json.Number
import Blueprint.Text.Bytes

/-!
# Reading JSON

A text is read from the front, and each reader gives what it read together with the rest of the
text. What is wrong with a text falls into three classes: it ends too early, it is no JSON, or
it is JSON that does not fit what is expected.

Values nest at most 127 deep, and numbers must be within the range of double precision. A value
that is only skipped may nest deeper and hold larger numbers, and its strings may hold halves of
pairs. A selection says which members of the objects in a value are read and which are skipped.
-/

set_option autoImplicit false

namespace Blueprint

/-- What is wrong with a text that was to be read. -/
inductive ReadFault where
  /-- The text ends too early. -/
  | endOfText
  /-- The text is no JSON. -/
  | malformed
  /-- The text is JSON, but not what is expected. -/
  | unfit
deriving DecidableEq, Repr

namespace Json

/-- Skip the blanks that may stand between tokens. -/
def skipBlanks (text : List Char) : List Char :=
  text.dropWhile fun char => char == ' ' || char == '\n' || char == '\t' || char == '\r'

/-- Skip the given characters. -/
def skipWord : (word text : List Char) → Except ReadFault (List Char)
  | [], text => .ok text
  | _ :: _, [] => .error .endOfText
  | expected :: word, char :: rest =>
    if char == expected then skipWord word rest else .error .malformed

/-! ## Strings -/

/-- Where a reader is in a string. -/
inductive StringState where
  | plain
  /-- Right after a backslash. -/
  | escape
  /-- `left` digits of a code are still to come; `high` is the first half of a pair, if any. -/
  | digits (left value : Nat) (high : Option Nat)
  /-- The second half of a pair is still to come. -/
  | pair (high : Nat)
  /-- The same, right after its backslash. -/
  | pairEscape (high : Nat)

/-- The value of a hexadecimal digit. -/
def hexValue? (char : Char) : Option Nat :=
  if '0' ≤ char && char ≤ '9' then some (char.toNat - 48)
  else if 'a' ≤ char && char ≤ 'f' then some (char.toNat - 87)
  else if 'A' ≤ char && char ≤ 'F' then some (char.toNat - 55)
  else none

/-- The character that an escape of one letter stands for. -/
def escaped? (char : Char) : Option Char :=
  if char == '"' || char == '\\' || char == '/' then some char
  else if char == 'b' then some (Char.ofNat 8)
  else if char == 'f' then some (Char.ofNat 12)
  else if char == 'n' then some '\n'
  else if char == 'r' then some '\r'
  else if char == 't' then some '\t'
  else none

/-- What a finished code leads to: a character, or the wait for the second half of a pair. Halves
that stand alone are malformed. -/
def finishCode (code : Nat) (high : Option Nat) : Except ReadFault (Option Char × StringState) :=
  match high with
  | none =>
    if 0xDC00 ≤ code && code ≤ 0xDFFF then .error .malformed
    else if 0xD800 ≤ code && code ≤ 0xDBFF then .ok (none, .pair code)
    else .ok (some (Char.ofNat code), .plain)
  | some high =>
    if 0xDC00 ≤ code && code ≤ 0xDFFF then
      .ok (some (Char.ofNat (0x10000 + (high - 0xD800) * 0x400 + (code - 0xDC00))), .plain)
    else .error .malformed

/-- One step in a string. When `skipping`, codes are not looked at. -/
def stringStep (skipping : Bool) (state : StringState) (char : Char) (rest : List Char) :
    Except ReadFault (Option Char × StringState) :=
  let beginCode (high : Option Nat) : Except ReadFault (Option Char × StringState) :=
    if Text.byteLength (rest.take 4) < 4 then .error .endOfText
    else .ok (none, .digits 4 0 high)
  match state with
  | .plain =>
    if char == '\\' then .ok (none, .escape)
    else if char.toNat < 32 then .error .malformed
    else .ok (some char, .plain)
  | .escape =>
    if char == 'u' then beginCode none
    else match escaped? char with
      | some meant => .ok (some meant, .plain)
      | none => .error .malformed
  | .digits left value high =>
    match hexValue? char with
    | none => .error .malformed
    | some digit =>
      let value := value * 16 + digit
      if 1 < left then .ok (none, .digits (left - 1) value high)
      else if skipping then .ok (none, .plain)
      else finishCode value high
  | .pair high => if char == '\\' then .ok (none, .pairEscape high) else .error .malformed
  | .pairEscape high => if char == 'u' then beginCode (some high) else .error .malformed

/-- Whether a quote ends the string in a state. -/
def StringState.isPlain : StringState → Bool
  | plain => true
  | _ => false

/-- Read a string from inside it; `read` is what has been read of it, the last character first. -/
def readStringFrom (skipping : Bool) (state : StringState) (read : List Char) :
    List Char → Except ReadFault (String × List Char)
  | [] => .error .endOfText
  | char :: rest =>
    if char == '"' && state.isPlain then .ok (String.ofList read.reverse, rest)
    else match stringStep skipping state char rest with
      | .error fault => .error fault
      | .ok (found, state) => readStringFrom skipping state (found.toList ++ read) rest

/-- Read a string after its opening quote. -/
def readString (text : List Char) : Except ReadFault (String × List Char) :=
  readStringFrom false .plain [] text

/-- Skip a string after its opening quote. -/
def skipString (text : List Char) : Except ReadFault (List Char) :=
  (readStringFrom true .plain [] text).map Prod.snd

/-! ## Numbers -/

/-- Digits that must be there; `cut` is the fault of a text that ends before them. -/
def readDigits (cut : ReadFault) (text : List Char) : Except ReadFault (List Char × List Char) :=
  match text with
  | [] => .error cut
  | char :: _ =>
    if char.isDigit then .ok (text.takeWhile Char.isDigit, text.dropWhile Char.isDigit)
    else .error .malformed

/-- The digits before the point; a zero stands alone. -/
def readWhole (cut : ReadFault) (text : List Char) : Except ReadFault (List Char × List Char) := do
  let (digits, rest) ← readDigits cut text
  if digits.head? == some '0' && 1 < digits.length then .error .malformed
  else .ok (digits, rest)

/-- A point and the digits after it, if there is one. -/
def readFraction (cut : ReadFault) : List Char → Except ReadFault (Option (List Char) × List Char)
  | '.' :: rest => do
    let (digits, rest) ← readDigits cut rest
    return (some digits, rest)
  | text => .ok (none, text)

/-- An exponent, if there is one. -/
def readExponent (cut : ReadFault) :
    List Char → Except ReadFault (Option (Bool × List Char) × List Char)
  | [] => .ok (none, [])
  | char :: rest =>
    if char == 'e' || char == 'E' then do
      let (negative, rest) := match rest with
        | '-' :: rest => (true, rest)
        | '+' :: rest => (false, rest)
        | rest => (false, rest)
      let (digits, rest) ← readDigits cut rest
      return (some (negative, digits), rest)
    else .ok (none, char :: rest)

/-- The text of a number; `cut` is the fault of a text that ends inside it. -/
def readNumberText (cut : ReadFault) (text : List Char) :
    Except ReadFault (NumberText × List Char) := do
  let (negative, text) := match text with
    | '-' :: rest => (true, rest)
    | text => (false, text)
  let (whole, text) ← readWhole cut text
  let (fraction, text) ← readFraction cut text
  let (exponent, text) ← readExponent cut text
  return ({ negative, whole, fraction, exponent }, text)

/-- Read a number. -/
def readNumber (text : List Char) : Except ReadFault (Json × List Char) := do
  let (number, rest) ← readNumberText .endOfText text
  match number.value? with
  | some value => return (value, rest)
  | none => .error .malformed

/-- Skip a number. -/
def skipNumber (text : List Char) : Except ReadFault (List Char) :=
  (readNumberText .malformed text).map Prod.snd

/-- Whether a number begins with a character. -/
def startsNumber (char : Char) : Bool := char == '-' || char.isDigit

/-! ## Values -/

/-- How deep values may nest, and one more. -/
def depthLimit : Nat := 128

mutual
/-- Skip a value; `fuel` bounds the steps. -/
def skipValue (fuel : Nat) (text : List Char) : Except ReadFault (List Char) :=
  match fuel with
  | 0 => .error .malformed
  | fuel + 1 =>
    match skipBlanks text with
    | [] => .error .endOfText
    | 'n' :: rest => skipWord ['u', 'l', 'l'] rest
    | 't' :: rest => skipWord ['r', 'u', 'e'] rest
    | 'f' :: rest => skipWord ['a', 'l', 's', 'e'] rest
    | '"' :: rest => skipString rest
    | '[' :: rest => skipItems fuel true rest
    | '{' :: rest => skipMembers fuel true rest
    | char :: rest => if startsNumber char then skipNumber (char :: rest) else .error .malformed

/-- Skip the items of an array and its end. -/
def skipItems (fuel : Nat) (first : Bool) (text : List Char) : Except ReadFault (List Char) :=
  match fuel with
  | 0 => .error .malformed
  | fuel + 1 =>
    match skipBlanks text with
    | [] => .error .endOfText
    | ']' :: rest => .ok rest
    | char :: rest => do
      let text ← if first then .ok (char :: rest) else skipWord [','] (char :: rest)
      let text ← skipValue fuel text
      skipItems fuel false text

/-- Skip the members of an object and its end. -/
def skipMembers (fuel : Nat) (first : Bool) (text : List Char) :
    Except ReadFault (List Char) :=
  match fuel with
  | 0 => .error .malformed
  | fuel + 1 =>
    match skipBlanks text with
    | [] => .error .endOfText
    | '}' :: rest => .ok rest
    | char :: rest => do
      let text ← if first then .ok (char :: rest) else skipWord [','] (char :: rest)
      let text ← skipWord ['"'] (skipBlanks text)
      let text ← skipString text
      let text ← skipWord [':'] (skipBlanks text)
      let text ← skipValue fuel text
      skipMembers fuel false text
end

/-- What is read of a value, by the parts that it has: the part that is each item of an array, and
the part that is a member of an object, unless the member is skipped. -/
structure Selection (Part : Type) where
  item : Part → Nat → Part
  member? : Part → String → Option Part

/-- All of a value is read. -/
def Selection.all : Selection Unit where
  item _ _ := ()
  member? _ _ := some ()

mutual
/-- Read what is selected of a value; `fuel` bounds the steps and `depth` is how deep values may
still nest. -/
def readValue {Part : Type} (selection : Selection Part) (fuel depth : Nat) (part : Part)
    (text : List Char) : Except ReadFault (Json × List Char) :=
  match fuel with
  | 0 => .error .malformed
  | fuel + 1 =>
    match skipBlanks text with
    | [] => .error .endOfText
    | 'n' :: rest => (skipWord ['u', 'l', 'l'] rest).map fun rest => (.null, rest)
    | 't' :: rest => (skipWord ['r', 'u', 'e'] rest).map fun rest => (.bool true, rest)
    | 'f' :: rest => (skipWord ['a', 'l', 's', 'e'] rest).map fun rest => (.bool false, rest)
    | '"' :: rest => (readString rest).map fun (value, rest) => (.string value, rest)
    | '[' :: rest =>
      if depth ≤ 1 then .error .malformed
      else (readItems selection fuel (depth - 1) part 0 rest).map fun (items, rest) =>
        (.array items, rest)
    | '{' :: rest =>
      if depth ≤ 1 then .error .malformed
      else (readMembers selection fuel (depth - 1) part true rest).map fun (members, rest) =>
        (.object members, rest)
    | char :: rest => if startsNumber char then readNumber (char :: rest) else .error .malformed

/-- Read the items of an array from a `place` up to its end; before the first there is no comma. -/
def readItems {Part : Type} (selection : Selection Part) (fuel depth : Nat) (part : Part)
    (place : Nat) (text : List Char) : Except ReadFault (List Json × List Char) :=
  match fuel with
  | 0 => .error .malformed
  | fuel + 1 =>
    match skipBlanks text with
    | [] => .error .endOfText
    | ']' :: rest => .ok ([], rest)
    | char :: rest => do
      let text ← if place == 0 then .ok (char :: rest) else skipWord [','] (char :: rest)
      let (item, text) ← readValue selection fuel depth (selection.item part place) text
      let (items, text) ← readItems selection fuel depth part (place + 1) text
      return (item :: items, text)

/-- Read the selected members of an object up to its end; before the `first` there is no comma. -/
def readMembers {Part : Type} (selection : Selection Part) (fuel depth : Nat) (part : Part)
    (first : Bool) (text : List Char) : Except ReadFault (List (String × Json) × List Char) :=
  match fuel with
  | 0 => .error .malformed
  | fuel + 1 =>
    match skipBlanks text with
    | [] => .error .endOfText
    | '}' :: rest => .ok ([], rest)
    | char :: rest => do
      let text ← if first then .ok (char :: rest) else skipWord [','] (char :: rest)
      let text ← skipWord ['"'] (skipBlanks text)
      let (name, text) ← readString text
      let text ← skipWord [':'] (skipBlanks text)
      match selection.member? part name with
      | none => do
        let text ← skipValue fuel text
        readMembers selection fuel depth part false text
      | some inner => do
        let (value, text) ← readValue selection fuel depth inner text
        let (members, text) ← readMembers selection fuel depth part false text
        return ((name, value) :: members, text)
end

/-- The steps that reading a text can take. -/
def stepsFor (text : List Char) : Nat := 2 * text.length + 2

/-- Only blanks may follow a value. -/
def expectEnd (text : List Char) : Except ReadFault Unit :=
  if (skipBlanks text).isEmpty then .ok () else .error .malformed

/-- Read what is selected of a text that is one value. -/
def parseSelected {Part : Type} (selection : Selection Part) (part : Part) (text : String) :
    Except ReadFault Json := do
  let chars := text.toList
  let (value, rest) ← readValue selection (stepsFor chars) depthLimit part chars
  expectEnd rest
  return value

/-- Read a text that is one value. -/
def parse (text : String) : Except ReadFault Json := parseSelected .all () text

end Json

end Blueprint
