import Blueprint.Proofs.Completion.Written

/-!
# Typing in an open bracket

A key may be typed in a bracket that is still open, with a quote in front or without. As long as
there is neither a quote nor a space in it, what is offered stays as it was right after the bracket,
whatever stands before it: the key is passed over from the end (`Text.trailingExpression_open`) and
from the start (`Expression.ofText_open`).

From the end, quotes and spaces belong to an expression only inside closed brackets. So a quote or a
space cuts the expression off inside the open bracket, and what is offered depends only on the word
after it, not on the reference (`Completion.ofReference_open`).
-/

set_option autoImplicit false

namespace Blueprint

/-- What has been typed of a key in a bracket that is still open. -/
structure PartialKey where
  /-- The quote in front, if there is one. -/
  quote : Option Char
  quoted : ∀ char ∈ quote, Text.isQuote char = true
  typed : List Char
  plain : ∀ char ∈ typed, ItemForm.key.allows char = true

namespace Text

/-- Whether a character of a key does not belong to an expression outside of closed brackets. -/
def cutsKey (char : Char) : Bool := isQuote char || char == ' '

theorem expressionFromEnd_of_cutsKey {char : Char} (cuts : cutsKey char = true)
    (before : List Char) : expressionFromEnd 0 (char :: before) = [] := by
  simp only [cutsKey, isQuote, Bool.or_eq_true, beq_iff_eq] at cuts
  rcases cuts with (rfl | rfl) | rfl <;> simp [expressionFromEnd]

end Text

namespace PartialKey

open Text

variable (key : PartialKey)

/-- A key as it is typed. -/
def text : List Char := key.quote.toList ++ key.typed

/-- What follows the last quote or space of a key, if there is one. -/
def cutOff? : Option (List Char) := afterLast? cutsKey key.text

variable {key}

theorem belongs_of_mem {char : Char} (member : char ∈ key.text) (uncut : cutsKey char = false) :
    belongs 0 char = true := by
  have inBracket : belongs 1 char = true := by
    rcases List.mem_append.mp member with front | later
    · simp [belongs, key.quoted char (Option.mem_toList.mp front)]
    · exact WrittenItem.belongs_of_allows (key.plain char later)
  rw [cutsKey] at uncut
  simpa [belongs, uncut] using inBracket

theorem bracket_not_mem : '[' ∉ key.text ∧ ']' ∉ key.text := by
  constructor <;>
  · intro member
    rcases List.mem_append.mp member with front | later
    · cases key.quoted _ (Option.mem_toList.mp front)
    · cases key.plain _ later

theorem belongs_of_mem_cutOff? {word : List Char} (cut : key.cutOff? = some word) :
    ∀ char ∈ word, belongs 0 char = true := fun _ member => by
  obtain ⟨_, _, _, _, uncut⟩ := afterLast?_eq_some cut
  exact belongs_of_mem ((afterLast?_isSuffix cut).subset member) (uncut _ member)

end PartialKey

/-! ## Both directions of reading -/

namespace Text

theorem trailingExpression_append_of_belongs {word : List Char}
    (inside : ∀ char ∈ word, belongs 0 char = true) (before : List Char) :
    trailingExpression (before ++ word) = trailingExpression before ++ word := by
  have backwards : ∀ char ∈ word.reverse, belongs 0 char = true := by simpa using inside
  rw [trailingExpression, List.reverse_append, expressionFromEnd_append_of_belongs backwards,
    List.reverse_append, List.reverse_reverse, trailingExpression]

theorem trailingExpression_bracket (path : List Char) :
    trailingExpression (path ++ ['[']) = trailingExpression path ++ ['['] := by
  simp [trailingExpression, expressionFromEnd]

/-- From the end, a key that nothing cuts is passed over. -/
theorem trailingExpression_open {key : PartialKey} (whole : key.cutOff? = none)
    (path : List Char) :
    trailingExpression (path ++ '[' :: key.text) = trailingExpression path ++ '[' :: key.text := by
  have inside : ∀ char ∈ key.text, belongs 0 char = true := fun char member =>
    PartialKey.belongs_of_mem member (afterLast?_eq_none whole char member)
  rw [List.append_cons, trailingExpression_append_of_belongs inside, trailingExpression_bracket,
    ← List.append_cons]

/-- From the end, nothing is seen of what stands before a cut. -/
theorem trailingExpression_cut {key : PartialKey} {word : List Char}
    (cut : key.cutOff? = some word) (before : List Char) :
    trailingExpression (before ++ key.text) = word := by
  obtain ⟨front, char, split, cuts, _⟩ := afterLast?_eq_some cut
  rw [split, List.append_cons, ← List.append_assoc,
    trailingExpression_append_of_belongs (PartialKey.belongs_of_mem_cutOff? cut),
    trailingExpression, ← List.append_assoc, List.reverse_append, List.reverse_singleton,
    List.singleton_append, expressionFromEnd_of_cutsKey cuts]
  rfl

end Text

namespace Expression

theorem readBracket_of_not_mem {text : List Char} (closing : ']' ∉ text) (segments : List String)
    (item : List Char) : readBracket segments item text = ⟨segments, .bracket⟩ := by
  induction text generalizing item with
  | nil => rfl
  | cons char rest ih =>
      rw [readBracket, if_neg (by simpa using (List.ne_of_not_mem_cons closing).symm),
        ih (List.not_mem_of_not_mem_cons closing)]

/-- From the start, what a bracket holds makes no difference as long as it is open. -/
theorem read_open {key : List Char} (closing : ']' ∉ key) (text : List Char) :
    (∀ segments name trailing, read segments name trailing (text ++ '[' :: key) =
      read segments name trailing (text ++ ['['])) ∧
    ∀ segments item, readBracket segments item (text ++ '[' :: key) =
      readBracket segments item (text ++ ['[']) := by
  induction text with
  | nil =>
      constructor
      · intro segments name trailing
        simp [read, readBracket_of_not_mem closing, readBracket]
      · intro segments item
        simp [readBracket_of_not_mem closing, readBracket]
  | cons char rest ih =>
      obtain ⟨outside, inside⟩ := ih
      constructor
      · intro segments name trailing
        rw [List.cons_append, List.cons_append, read, read, outside, outside, inside]
      · intro segments item
        rw [List.cons_append, List.cons_append, readBracket, readBracket, outside, inside]

theorem ofText_open {key : List Char} (closing : ']' ∉ key) (text : List Char) :
    ofText (text ++ '[' :: key) = ofText (text ++ ['[']) :=
  (read_open closing text).1 [] [] .identifier

/-- A word without a dot is one segment. -/
theorem ofText_word {word : List Char} (noDot : '.' ∉ word) (noBracket : '[' ∉ word) :
    ofText word = ⟨pushName [] word, .identifier⟩ := by
  cases word with
  | nil => rfl
  | cons char rest =>
      have whole := @read_append [] [] (char :: rest) (List.cons_ne_nil _ _) noDot noBracket
        .identifier []
      rw [List.append_nil] at whole
      rw [ofText, whole, read, List.nil_append]

end Expression

namespace Completion

/-- While a single name is typed everything that a substitution can begin with is offered. -/
theorem ofExpression_name (name : List Char) :
    ofExpression ⟨Expression.pushName [] name, .identifier⟩ = { kind := .stringSubOpen } := by
  cases name with
  | nil => rfl
  | cons char rest =>
      rw [Expression.pushName_of_ne_nil _ (List.cons_ne_nil _ _), ofExpression]
      dsimp only [List.nil_append]
      cases Namespace.ofName? (String.ofList (char :: rest)) with
      | none => rfl
      | some space => rfl

/-- **What is offered while a key is typed in an open bracket.** If nothing cuts the key, it is what
was offered right after the bracket, whatever the path before it. If a quote or a space cuts it, it
is what the word behind the cut would offer on its own: for a word without a dot, all that a
substitution can begin with. -/
theorem ofReference_open (path : List Char) (key : PartialKey) :
    (key.cutOff? = none →
      ofReference (path ++ '[' :: key.text) = ofReference (path ++ ['['])) ∧
    ∀ word, key.cutOff? = some word →
      ofReference (path ++ '[' :: key.text) = ofReference word ∧
      ('.' ∉ word → ofReference (path ++ '[' :: key.text) = { kind := .stringSubOpen }) := by
  constructor
  · intro whole
    rw [ofReference, Text.trailingExpression_open whole,
      Expression.ofText_open PartialKey.bracket_not_mem.2, ofReference,
      Text.trailingExpression_bracket]
  · intro word cut
    have found : Text.trailingExpression (path ++ '[' :: key.text) = word := by
      rw [List.append_cons, Text.trailingExpression_cut cut]
    have itself : Text.trailingExpression word = word :=
      Text.trailingExpression_append_of_belongs (PartialKey.belongs_of_mem_cutOff? cut) []
    refine ⟨by rw [ofReference, found, ofReference, itself], fun noDot => ?_⟩
    have noBracket : '[' ∉ word := fun member =>
      PartialKey.bracket_not_mem.1 ((Text.afterLast?_isSuffix cut).subset member)
    rw [ofReference, found, Expression.ofText_word noDot noBracket, ofExpression_name]

/-- A key typed without a quote. -/
def bareKey : PartialKey where
  quote := none
  quoted := by simp
  typed := "my-table.v2".toList
  plain := by simp [ItemForm.allows, isNameChar]

/-- A key typed with a quote and a space. -/
def spacedKey : PartialKey where
  quote := some '"'
  quoted := by simp [Text.isQuote]
  typed := "my tab".toList
  plain := by simp [ItemForm.allows, isNameChar]

theorem ofReference_open_resources :
    bareKey.cutOff? = none ∧
    ofReference "resources[my-table.v2".toList = ofReference "resources[".toList ∧
    spacedKey.cutOff? = some "tab".toList ∧
    ofReference "resources[\"my tab".toList = { kind := .stringSubOpen } := by
  have whole : bareKey.cutOff? = none := by decide
  have cut : spacedKey.cutOff? = some "tab".toList := by decide
  exact ⟨whole, (ofReference_open "resources".toList bareKey).1 whole, cut,
    ((ofReference_open "resources".toList spacedKey).2 _ cut).2 (by decide)⟩

/-- A quote in an open bracket changes what is offered. -/
theorem kind_ofReference_quoted_ne :
    (ofReference ("resources".toList ++ '[' :: "\"or".toList)).kind ≠
      (ofReference ("resources".toList ++ ['['])).kind := by
  decide

end Completion

end Blueprint
