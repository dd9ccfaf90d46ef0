import Blueprint.Cursor.Slot
import Blueprint.Proofs.Text.Scanners
import Blueprint.Proofs.Text.Search

/-!
# Lines of a block

A line of a YAML block that is being typed has one of three forms (`BlockLine`): an entry with its
key and, maybe, a value, an item after a dash, or a word that may become a key. The slot is told
from the line without the blanks around it, by the first colon that divides it. What has been typed
is told from the line as it stands, by its last colon, its last dash or its last word.

The two tell the same story (`BlockLine.detect_typed`): in front of each of these lines may stand
any indentation, the slot is the one of the form, and what has been typed is the value, the item or
the word.
-/

set_option autoImplicit false

namespace Blueprint

/-! ## The forms of a line -/

/-- The key of an entry. -/
structure BlockKey where
  chars : List Char
  nonempty : chars ≠ []
  unbroken : ∀ char ∈ chars, Text.isBlank char = false
  noColon : ':' ∉ chars
  noQuote : '"' ∉ chars

/-- A value or an item: no colon divides it, and no double quotes hide one. -/
structure BlockText where
  chars : List Char
  noColon : ':' ∉ chars
  noQuote : '"' ∉ chars

/-- A word that is no dash. -/
structure BlockWord where
  chars : List Char
  nonempty : chars ≠ []
  isWord : ∀ char ∈ chars, isWordChar char = true
  noDash : chars ≠ ['-']

/-- A line of a block up to the cursor, after its indentation. -/
inductive BlockLine where
  /-- A key with a colon and, after a space, its value; it may begin an item. -/
  | entry (inItem : Bool) (key : BlockKey) (value : Option BlockText)
  | bare (word : BlockWord)
  /-- An item in which no other one begins. -/
  | item (content : BlockText) (single : ¬['-', ' '] <:+: content.chars)

namespace BlockLine

/-- What follows the colon of an entry. -/
def tail : Option BlockText → List Char
  | none => []
  | some value => ' ' :: value.chars

/-- A line as it is written. -/
def text : BlockLine → List Char
  | entry inItem key value =>
    (if inItem then ['-', ' '] else []) ++ (key.chars ++ ':' :: tail value)
  | bare word => word.chars
  | item content _ => '-' :: ' ' :: content.chars

/-- What is being typed on a line. -/
def slot : BlockLine → Slot
  | entry _ _ _ => .valueField
  | bare _ => .keyField
  | item _ _ => .sequenceItem

/-- What has been typed of it: the value or item without blanks and one quote before it. -/
def typed : BlockLine → List Char
  | entry _ _ none => []
  | entry _ _ (some value) => Slot.dropQuote (Text.trimStart value.chars)
  | bare word => word.chars
  | item content _ => Slot.dropQuote (Text.trimStart content.chars)

end BlockLine

/-! ## Slots of a block -/

namespace Slot

theorem ofEntry_append {key rest : List Char} (noColon : ':' ∉ key) (noQuote : '"' ∉ key)
    (spaced : rest.head?.all (· == ' ') = true) (single : ':' ∉ rest) :
    ofEntry (key ++ ':' :: rest) = valueField := by
  rw [ofEntry, Text.afterMappingColon?_append noColon noQuote spaced]
  have nothing : Text.afterMappingColon? rest = none :=
    Text.afterMappingColonFrom_eq_none false single
  simp only [nothing, Option.isNone_none, if_true]

theorem ofEntry_of_not_mem {text : List Char} (noColon : ':' ∉ text) :
    ofEntry text = keyField := by
  have nothing : Text.afterMappingColon? text = none :=
    Text.afterMappingColonFrom_eq_none false noColon
  rw [ofEntry, nothing]

/-- A line that begins with no dash of an item is an entry as a whole. -/
theorem inBlock_eq_ofEntry {before : List Char} (nonempty : Text.trim before ≠ [])
    (noDash : Text.trim before ≠ ['-']) (noItem : ∀ rest, Text.trim before ≠ '-' :: ' ' :: rest)
    (container : Option Container) : inBlock before container = ofEntry (Text.trim before) := by
  unfold inBlock
  dsimp only
  split
  · next empty => exact absurd empty nonempty
  · next dash => exact absurd dash noDash
  · next rest item => exact absurd item (noItem rest)
  · rfl

theorem inBlock_of_item {before rest : List Char} (item : Text.trim before = '-' :: ' ' :: rest)
    (container : Option Container) :
    inBlock before container =
      if (Text.afterMappingColon? rest).isNone then sequenceItem else ofEntry rest := by
  rw [inBlock, item]
  rfl

theorem dropQuote_of_isWordChar {text : List Char}
    (isWord : ∀ char ∈ text, isWordChar char = true) : dropQuote text = text := by
  cases text with
  | nil => rfl
  | cons char rest =>
      have word := isWord char List.mem_cons_self
      have noQuote : (char == '"' || char == '\x27') = false := by
        rw [Bool.or_eq_false_iff, beq_eq_false_iff_ne, beq_eq_false_iff_ne]
        constructor
        · rintro rfl
          exact absurd word (by decide)
        · rintro rfl
          exact absurd word (by decide)
      rw [dropQuote, noQuote, if_neg Bool.false_ne_true]

/-- What has been typed of a key is the longest run of word characters before the cursor. -/
theorem typed_keyField (style : Style) (before : List Char) :
    typed keyField style before = Text.takeEndWhile isWordChar before := by
  have isWord : ∀ char ∈ Text.takeEndWhile isWordChar before, isWordChar char = true :=
    fun char member => List.all_eq_true.mp List.all_takeWhile char (List.mem_reverse.mp member)
  have begins : Text.trimStart (Text.takeEndWhile isWordChar before) =
      Text.takeEndWhile isWordChar before :=
    Text.dropWhile_eq_self fun char first =>
      Text.isBlank_of_isWordChar (isWord char (List.mem_of_head? first))
  rw [typed, rawTyped, begins, dropQuote_of_isWordChar isWord]

end Slot

/-! ## The three forms -/

namespace BlockLine

/-- A line up to the cursor with its indentation. -/
def before (line : BlockLine) (indent : Nat) : List Char := List.replicate indent ' ' ++ line.text

/-- From a line its indentation is trimmed and the blanks at its end. -/
theorem trim_indented (indent : Nat) {char : Char} (visible : Text.isBlank char = false)
    (rest : List Char) :
    Text.trim (List.replicate indent ' ' ++ char :: rest) = char :: Text.trimEnd rest := by
  rw [Text.trim, Text.trimStart_append_of_allBlank (Text.allBlank_replicate indent),
    Text.trimStart_cons visible]
  exact Text.trimEnd_append_cons visible [] rest

/-! ### Entries -/

theorem noColon_tail (value : Option BlockText) : ':' ∉ tail value := by
  cases value with
  | none => simp [tail]
  | some value => simpa [tail] using value.noColon

/-- What is left of the value behind the colon begins with a space. -/
theorem spaced_trimEnd_tail (value : Option BlockText) :
    (Text.trimEnd (tail value)).head?.all (· == ' ') = true := by
  cases value with
  | none => rfl
  | some value =>
      cases trimmed : Text.trimEnd (tail (some value)) with
      | nil => rfl
      | cons char rest =>
          have initial := Text.trimEnd_isPrefix (tail (some value))
          rw [trimmed] at initial
          obtain ⟨rfl, -⟩ := List.cons_prefix_cons.mp initial
          rfl

theorem noColon_trimEnd_tail (value : Option BlockText) : ':' ∉ Text.trimEnd (tail value) :=
  fun colon => noColon_tail value ((Text.trimEnd_isPrefix _).subset colon)

theorem ofEntry_keyed (key : BlockKey) (value : Option BlockText) :
    Slot.ofEntry (key.chars ++ ':' :: Text.trimEnd (tail value)) = .valueField :=
  Slot.ofEntry_append key.noColon key.noQuote (spaced_trimEnd_tail value)
    (noColon_trimEnd_tail value)

theorem trimEnd_keyed (front : List Char) (key : BlockKey) (value : Option BlockText) :
    Text.trimEnd (front ++ (key.chars ++ ':' :: tail value)) =
      front ++ (key.chars ++ ':' :: Text.trimEnd (tail value)) := by
  rw [← List.append_assoc, Text.trimEnd_append_cons (by decide), List.append_assoc]

theorem inBlock_entry (indent : Nat) (inItem : Bool) (key : BlockKey) (value : Option BlockText)
    (container : Option Container) :
    Slot.inBlock ((entry inItem key value).before indent) container = .valueField := by
  cases inItem with
  | true =>
      have trimmed : Text.trim ((entry true key value).before indent) =
          '-' :: ' ' :: (key.chars ++ ':' :: Text.trimEnd (tail value)) := by
        rw [before, text, if_pos rfl, List.cons_append, trim_indented indent (by decide)]
        exact congrArg _ (trimEnd_keyed [' '] key value)
      have divided := Text.afterMappingColon?_append key.noColon key.noQuote
        (spaced_trimEnd_tail value)
      rw [Slot.inBlock_of_item trimmed, divided, if_neg (by simp), ofEntry_keyed]
  | false =>
      obtain ⟨first, rest, spelled⟩ := List.exists_cons_of_ne_nil key.nonempty
      have visible : ∀ char ∈ first :: rest, Text.isBlank char = false := by
        rw [← spelled]
        exact key.unbroken
      have trimmed : Text.trim ((entry false key value).before indent) =
          key.chars ++ ':' :: Text.trimEnd (tail value) := by
        rw [before, text, if_neg Bool.false_ne_true, List.nil_append, spelled, List.cons_append,
          trim_indented indent (visible first List.mem_cons_self),
          Text.trimEnd_append_cons (by decide)]
        rfl
      rw [Slot.inBlock_eq_ofEntry, trimmed, ofEntry_keyed]
      · simp [trimmed]
      · rw [trimmed, spelled]
        simp
      · -- The second character is one of the key or the colon, and no space in either case.
        intro later
        rw [trimmed, spelled]
        cases rest with
        | nil => simp
        | cons second others =>
            have noSpace : second ≠ ' ' := by
              rintro rfl
              exact absurd (visible ' ' (by simp)) (by decide)
            simp [noSpace]

theorem typed_entry (indent : Nat) (inItem : Bool) (key : BlockKey) (value : Option BlockText) :
    Slot.typed .valueField .blockYaml ((entry inItem key value).before indent) =
      (entry inItem key value).typed := by
  have behind : Text.afterLast? (· == ':') ((entry inItem key value).before indent) =
      some (tail value) := by
    have free : ∀ other ∈ tail value, (other == ':') = false := by
      intro other member
      rw [beq_eq_false_iff_ne]
      rintro rfl
      exact noColon_tail value member
    rw [before, text, ← List.append_assoc, ← List.append_assoc]
    exact Text.afterLast?_append (by rfl) free _
  rw [Slot.typed, Slot.rawTyped, behind, Option.getD_some]
  cases value with
  | none => rfl
  | some value =>
      rw [tail, typed]
      exact congrArg _ (Text.trimStart_append_of_allBlank (Text.allBlank_replicate 1) value.chars)

/-! ### Words -/

theorem trim_bare (indent : Nat) (word : BlockWord) :
    Text.trim ((bare word).before indent) = word.chars := by
  have visible : ∀ char ∈ word.chars, Text.isBlank char = false :=
    fun char member => Text.isBlank_of_isWordChar (word.isWord char member)
  rw [before, text, Text.trim, Text.trimStart_append_of_allBlank (Text.allBlank_replicate indent)]
  exact Text.trimmed_eq_self (fun char first => visible char (List.mem_of_head? first))
    (fun char last => visible char (List.mem_of_getLast? last))

theorem inBlock_bare (indent : Nat) (word : BlockWord) (container : Option Container) :
    Slot.inBlock ((bare word).before indent) container = .keyField := by
  have allowed : ∀ char, isWordChar char = false → char ∉ word.chars := by
    intro char refused member
    rw [word.isWord char member] at refused
    cases refused
  rw [Slot.inBlock_eq_ofEntry, trim_bare, Slot.ofEntry_of_not_mem (allowed ':' (by decide))]
  · rw [trim_bare]
    exact word.nonempty
  · rw [trim_bare]
    exact word.noDash
  · intro rest item
    rw [trim_bare] at item
    exact allowed ' ' (by decide) (by simp [item])

theorem typed_bare (indent : Nat) (word : BlockWord) :
    Slot.typed .keyField .blockYaml ((bare word).before indent) = word.chars := by
  have noWord : ∀ char ∈ (List.replicate indent ' ').getLast?, isWordChar char = false := by
    intro char last
    rw [List.eq_of_mem_replicate (List.mem_of_mem_getLast? last)]
    decide
  have run : Text.takeEndWhile isWordChar ((bare word).before indent) = word.chars := by
    rw [before, text, Text.takeEndWhile_append noWord word.isWord]
  rw [Slot.typed_keyField, run]

/-! ### Items -/

theorem inBlock_item (indent : Nat) (content : BlockText) (single : ¬['-', ' '] <:+: content.chars)
    (container : Option Container) :
    Slot.inBlock ((item content single).before indent) container = .sequenceItem := by
  have trimmed := trim_indented indent (show Text.isBlank '-' = false by decide)
    (' ' :: content.chars)
  have initial := Text.trimEnd_isPrefix (' ' :: content.chars)
  cases left : Text.trimEnd (' ' :: content.chars) with
  | nil =>
      rw [left] at trimmed
      rw [before, text, Slot.inBlock, trimmed]
      rfl
  | cons char rest =>
      rw [left] at trimmed initial
      obtain ⟨rfl, further⟩ := List.cons_prefix_cons.mp initial
      have noColon : ':' ∉ rest := fun colon => content.noColon (further.subset colon)
      have undivided : Text.afterMappingColon? rest = none :=
        Text.afterMappingColonFrom_eq_none false noColon
      rw [before, text, Slot.inBlock_of_item trimmed, undivided, Option.isNone_none,
        if_pos rfl]

theorem typed_item (indent : Nat) (content : BlockText)
    (single : ¬['-', ' '] <:+: content.chars) :
    Slot.typed .sequenceItem .blockYaml ((item content single).before indent) =
      Slot.dropQuote (Text.trimStart content.chars) := by
  have behind : Text.afterLastPair? '-' ' ' ((item content single).before indent) =
      some content.chars :=
    Text.afterLastPair?_append _ (Text.not_infix_cons (by decide) single)
  rw [Slot.typed, Slot.rawTyped, if_pos (by rfl), behind, Option.getD_some]

/-- **On every line of a block the slot and what has been typed agree.** However a line is indented,
the slot of an entry is its value, that of a word a key and that of an item the item, and what has
been typed is just that. The container around the cursor has no say. -/
theorem detect_typed (line : BlockLine) (indent : Nat) (after : List Char)
    (container : Option Container) :
    Slot.detect .blockYaml (line.before indent) after container = line.slot ∧
      (Slot.detect .blockYaml (line.before indent) after container).typed .blockYaml
        (line.before indent) = line.typed := by
  have found : Slot.detect .blockYaml (line.before indent) after container = line.slot := by
    rw [Slot.detect]
    cases line with
    | entry inItem key value => exact inBlock_entry indent inItem key value container
    | bare word => exact inBlock_bare indent word container
    | item content single => exact inBlock_item indent content single container
  refine ⟨found, ?_⟩
  rw [found]
  cases line with
  | entry inItem key value => exact typed_entry indent inItem key value
  | bare word => exact typed_bare indent word
  | item content single => exact typed_item indent content single

/-! ### A value in an open quote -/

namespace OpenQuote

def key : BlockKey where
  chars := "type".toList
  nonempty := by decide
  unbroken := fun char member =>
    Text.isBlank_of_isWordChar (List.all_eq_true.mp (by decide) char member)
  noColon := by decide
  noQuote := by decide

/-- A value with one more space before it, and a quote that is not closed yet. -/
def value : BlockText where
  chars := " 'aws".toList
  noColon := by decide
  noQuote := by decide

def word : BlockWord where
  chars := "ty".toList
  nonempty := by decide
  isWord := List.all_eq_true.mp (by decide)
  noDash := by decide

/-- The slot that is found on a line before a cursor, and what has been typed there. -/
def found (before : List Char) : Slot × List Char :=
  let slot := Slot.detect .blockYaml before [] none
  (slot, slot.typed .blockYaml before)

/-- Of a value and of an item the blanks and the quote before it are left out; a word stays as it
stands. -/
theorem detect_typed_openQuote :
    found " - type:  'aws".toList = (.valueField, "aws".toList) ∧
      found " -  'aws".toList = (.sequenceItem, "aws".toList) ∧
        found " ty".toList = (.keyField, "ty".toList) := by
  have read : ∀ (line : BlockLine) (before typed : List Char), line.before 1 = before →
      line.typed = typed → found before = (line.slot, typed) := by
    rintro line _ _ rfl rfl
    obtain ⟨slot, typed⟩ := detect_typed line 1 [] none
    exact Prod.ext slot typed
  refine ⟨?_, ?_, ?_⟩
  · exact read (entry true key (some value)) _ _ (by decide) (by decide)
  · exact read (item value (by decide)) _ _ (by decide) (by decide)
  · exact read (bare word) _ _ (by decide) (by decide)

end OpenQuote

end BlockLine

end Blueprint
