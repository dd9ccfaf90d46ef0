import Blueprint.Json.Basic

/-!
# Printing JSON

Values are printed over several lines, two spaces for each level, with members in their given
order. Only quotes, backslashes and control characters are escaped in strings.
-/

set_option autoImplicit false

namespace Blueprint.Json

/-- A hexadecimal digit, in lower case. -/
def hexDigit (value : Nat) : Char :=
  if value < 10 then Char.ofNat (48 + value) else Char.ofNat (87 + value)

/-- A character as it stands in a string. -/
def escapeChar (char : Char) : List Char :=
  if char == '"' then ['\\', '"']
  else if char == '\\' then ['\\', '\\']
  else if char == '\n' then ['\\', 'n']
  else if char == '\r' then ['\\', 'r']
  else if char == '\t' then ['\\', 't']
  else if char.toNat == 8 then ['\\', 'b']
  else if char.toNat == 12 then ['\\', 'f']
  else if char.toNat < 32 then
    ['\\', 'u', '0', '0', hexDigit (char.toNat / 16), hexDigit (char.toNat % 16)]
  else [char]

/-- A string with its quotes. -/
def quote (text : String) : String :=
  "\"" ++ String.ofList (text.toList.flatMap escapeChar) ++ "\""

/-- A new line at a level. -/
def newline (level : Nat) : String := "\n" ++ String.ofList (List.replicate (2 * level) ' ')

mutual
/-- A value at a level. -/
def printAt (level : Nat) : Json → String
  | null => "null"
  | bool value => if value then "true" else "false"
  | integer value => toString value
  | decimal value => value.render
  | string value => quote value
  | array [] => "[]"
  | array (first :: rest) =>
    "[" ++ newline (level + 1) ++ printAt (level + 1) first ++ printItems (level + 1) rest ++
      newline level ++ "]"
  | object [] => "\x7b\x7d"
  | object ((name, first) :: rest) =>
    "\x7b" ++ newline (level + 1) ++ quote name ++ ": " ++ printAt (level + 1) first ++
      printMembers (level + 1) rest ++ newline level ++ "\x7d"

/-- The items after the first. -/
def printItems (level : Nat) : List Json → String
  | [] => ""
  | item :: rest => "," ++ newline level ++ printAt level item ++ printItems level rest

/-- The members after the first. -/
def printMembers (level : Nat) : List (String × Json) → String
  | [] => ""
  | (name, value) :: rest =>
    "," ++ newline level ++ quote name ++ ": " ++ printAt level value ++ printMembers level rest
end

/-- A value over several lines. -/
def print (json : Json) : String := printAt 0 json

end Blueprint.Json
