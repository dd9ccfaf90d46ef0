/-!
# Blank characters

A character is blank when it has the Unicode property `White_Space`. Trimming and counting
words go by this property.
-/

set_option autoImplicit false

namespace Blueprint.Text

/-- The ranges of code points with the property `White_Space`, in order. -/
def blankRanges : List (Nat × Nat) :=
  [(0x09, 0x0D), (0x20, 0x20), (0x85, 0x85), (0xA0, 0xA0), (0x1680, 0x1680), (0x2000, 0x200A),
    (0x2028, 0x2029), (0x202F, 0x202F), (0x205F, 0x205F), (0x3000, 0x3000)]

/-- Whether a character is blank. -/
def isBlank (char : Char) : Bool :=
  blankRanges.any fun range => range.1 ≤ char.toNat && char.toNat ≤ range.2

/-- A text without its leading blanks. -/
def trimStart (text : List Char) : List Char := text.dropWhile isBlank

/-- A text without its trailing blanks. -/
def trimEnd (text : List Char) : List Char := (text.reverse.dropWhile isBlank).reverse

/-- A text without the blanks at either end. -/
def trim (text : List Char) : List Char := trimEnd (trimStart text)

/-- Whether a text has only blanks. -/
def allBlank (text : List Char) : Bool := text.all isBlank

/-- The number of words, a word being a longest run without blanks; `inWord` says whether the
text so far ends inside one. -/
def countWordsFrom (inWord : Bool) : List Char → Nat
  | [] => 0
  | char :: rest =>
    if isBlank char then countWordsFrom false rest
    else if inWord then countWordsFrom true rest
    else countWordsFrom true rest + 1

/-- The number of words of a text. -/
def countWords (text : List Char) : Nat := countWordsFrom false text

end Blueprint.Text
