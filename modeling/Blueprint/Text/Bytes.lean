/-!
# Byte offsets in a text

A text is a list of characters, and an offset counts the bytes of its UTF-8 form. An offset
is good for cutting when it falls between two characters; `cutAt` gives the two parts, and
nothing for an offset inside a character or past the end.
-/

set_option autoImplicit false

namespace Blueprint.Text

/-- How many bytes a text takes. -/
def byteLength : List Char → Nat
  | [] => 0
  | char :: rest => char.utf8Size + byteLength rest

/-- The parts before and after a byte offset, if the offset falls between two characters. -/
def cutAt : List Char → Nat → Option (List Char × List Char)
  | text, 0 => some ([], text)
  | [], _ + 1 => none
  | char :: rest, offset + 1 =>
    if char.utf8Size ≤ offset + 1 then
      (cutAt rest (offset + 1 - char.utf8Size)).map fun parts => (char :: parts.1, parts.2)
    else none

/-- The text between two byte offsets, if both fall between characters and are in order. -/
def slice? (text : List Char) (start stop : Nat) : Option (List Char) :=
  if start ≤ stop then do
    let (_, after) ← cutAt text start
    let (between, _) ← cutAt after (stop - start)
    return between
  else none

end Blueprint.Text
