/-!
# Searching in a text

The parts of a text around the last place where something is found, and texts without a given
end.
-/

set_option autoImplicit false

namespace Blueprint.Text

/-- What follows the last character with a property, if there is one. -/
def afterLast? (found : Char → Bool) : List Char → Option (List Char)
  | [] => none
  | char :: rest =>
    match afterLast? found rest with
    | some after => some after
    | none => if found char then some rest else none

/-- What follows the last place where two characters stand side by side, if there is one. -/
def afterLastPair? (first second : Char) : List Char → Option (List Char)
  | [] => none
  | [_] => none
  | left :: right :: rest =>
    match afterLastPair? first second (right :: rest) with
    | some after => some after
    | none => if left == first && right == second then some rest else none

/-- How often two different characters stand side by side. -/
def countPairs (first second : Char) : List Char → Nat
  | [] => 0
  | [_] => 0
  | left :: right :: rest =>
    countPairs first second (right :: rest) + if left == first && right == second then 1 else 0

/-- The text before a given end, if the text ends so. -/
def dropEnd? (ending text : List Char) : Option (List Char) :=
  if ending.isSuffixOf text then some (text.take (text.length - ending.length)) else none

/-- The longest run of characters with a property at the end of a text. -/
def takeEndWhile (kept : Char → Bool) (text : List Char) : List Char :=
  (text.reverse.takeWhile kept).reverse

end Blueprint.Text
