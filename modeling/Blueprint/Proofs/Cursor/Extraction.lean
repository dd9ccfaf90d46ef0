import Blueprint.Proofs.Cursor.BlockLine
import Blueprint.Proofs.Text.Lines
import Blueprint.Proofs.Text.Positions

/-!
# The text around a position

The text around a cursor is taken from the lines of the content, while positions are counted from
its start. Both see the same lines (`Text.LinesAgree`), and at the position of an offset the text
around the cursor is what stands around the offset on its line (`CursorLine.parts_at_endOf`). A
carriage return that ends the line is left out, from whichever side it is on. Each of the two says
where it stops, which is at the limit of lines and columns only.

Wherever the cursor is, the two parts make up the line, and the word around it is the longest run
of word characters before the cursor with the longest one behind it. The first of the two is what
has been typed if a key is being typed (`CursorLine.fits_extract`).
-/

set_option autoImplicit false

namespace Blueprint

namespace Text

/-- The line with a number, counted from one. -/
def lineAt? (content : List Char) : Nat → Option (List Char)
  | 0 => none
  | row + 1 => (lines content)[row]?

/-- A content has the lines that are counted. -/
theorem isSome_lineAt?_iff (content : List Char) {line : Nat} (counted : line ≤ Position.limit) :
    (lineAt? content line).isSome = true ↔ 1 ≤ line ∧ line ≤ lineCount content := by
  cases line with
  | zero => simp [lineAt?]
  | succ row =>
      rw [lineAt?, Option.isSome_iff_ne_none, ne_eq, List.getElem?_eq_none_iff, length_lines,
        lineCount, Position.clamp, Nat.le_min]
      omega

/-- A text whose last line is empty ends with a newline. -/
theorem exists_append_newline {text : List Char} (begun : text ≠ [])
    (empty : lastLineOf text = []) : ∃ front, text = front ++ ['\n'] := by
  have split := List.dropLast_concat_getLast begun
  by_cases newline : text.getLast begun = '\n'
  · exact ⟨text.dropLast, by rw [← newline, split]⟩
  · rw [← split, lastLineOf_append (by simpa using Ne.symm newline)] at empty
    simp at empty

/-- With as many newlines as lines can be counted, all bytes are newlines, and the last line has to
share its number with the empty line before it. -/
theorem lineAt?_limit {text : List Char} (short : byteLength text < 4294967296)
    (full : Position.limit ≤ newlineCount text) :
    lastLineOf text = [] ∧ lineAt? text Position.limit = some [] := by
  have spent := newlineCount_add_length_lastLineOf_le text
  have empty : lastLineOf text = [] :=
    List.eq_nil_of_length_eq_zero (by rw [Position.limit] at full; omega)
  have begun : text ≠ [] := by
    rintro rfl
    exact absurd full (by decide)
  obtain ⟨lead, rfl⟩ := exists_append_newline begun empty
  have count : newlineCount (lead ++ ['\n']) = newlineCount lead + 1 := newlineCount_append lead _
  have bytes : byteLength (lead ++ ['\n']) = byteLength lead + 1 := byteLength_append lead _
  have leadSpent := newlineCount_add_length_lastLineOf_le lead
  have row : Position.limit = newlineCount lead + 1 := by rw [Position.limit] at *; omega
  have leadEmpty : lastLineOf lead = [] :=
    List.eq_nil_of_length_eq_zero (by rw [Position.limit] at row; omega)
  have line := getElem?_lines_append lead ['\n']
  rw [leadEmpty] at line
  rw [row]
  exact ⟨empty, line⟩

/-- The line of the position after a beginning of a content. -/
theorem lineAt?_endOf {front back : List Char}
    (short : byteLength (front ++ back) < 4294967296) :
    lineAt? (front ++ back) (endOf front).line =
      some (lastLineOf front ++ back.takeWhile (· != '\n')) := by
  by_cases room : newlineCount front + 1 ≤ Position.limit
  · rw [endOf, Position.clamp, Nat.min_eq_left room]
    exact getElem?_lines_append front back
  · have full : Position.limit ≤ newlineCount front := Nat.lt_succ_iff.mp (Nat.lt_of_not_le room)
    have atEnd : back = [] := by
      have spent := newlineCount_add_length_lastLineOf_le front
      have rest := length_le_byteLength back
      rw [byteLength_append] at short
      rw [Position.limit] at full
      exact List.eq_nil_of_length_eq_zero (by omega)
    subst atEnd
    rw [List.append_nil] at *
    obtain ⟨empty, line⟩ := lineAt?_limit short full
    rw [endOf, Position.clamp, Nat.min_eq_right (Nat.le_of_not_le room), line, empty]
    rfl

/-- The ways to count the lines of a content agree. -/
structure LinesAgree (content : List Char) : Prop where
  /-- The table has the lines that an editor shows, unless they are more than can be counted. -/
  table : (LineTable.ofText content).lineCount = lineCount content ↔
    newlineCount content ≠ Position.limit
  /-- The content ends on the last line. -/
  atEnd : (positionAt content (byteLength content)).map Position.line = some (lineCount content)
  /-- There is a line for every number up to that of the last one. -/
  found : ∀ line ≤ Position.limit,
    (lineAt? content line).isSome = true ↔ 1 ≤ line ∧ line ≤ lineCount content

theorem linesAgree {content : List Char} (short : byteLength content < 4294967296) :
    LinesAgree content where
  table := by
    have spent := newlineCount_add_length_lastLineOf_le content
    have within : byteLength content ≤ Position.limit := Nat.le_of_lt_succ short
    rw [lineCount_ofText, lineCount, Position.clamp]
    generalize Position.limit = limit at *
    omega
  atEnd := by
    have placed : positionAt content (byteLength content) = some (endOf content) :=
      positionAt_eq_some_iff.mpr ⟨content, [], (List.append_nil content).symm, rfl, rfl⟩
    rw [placed]
    rfl
  found _ := isSome_lineAt?_iff content

end Text

namespace CursorLine

/-! ## Words -/

/-- The longest end of a text that has word characters only. -/
structure IsWordEnd (part text : List Char) : Prop where
  isEnd : part <:+ text
  isWord : ∀ char ∈ part, isWordChar char = true
  longest : ∀ other, other <:+ text → (∀ char ∈ other, isWordChar char = true) →
    other.length ≤ part.length

/-- The longest beginning of a text that has word characters only. -/
structure IsWordStart (part text : List Char) : Prop where
  isStart : part <+: text
  isWord : ∀ char ∈ part, isWordChar char = true
  longest : ∀ other, other <+: text → (∀ char ∈ other, isWordChar char = true) →
    other.length ≤ part.length

theorem isWordStart_takeWhile (text : List Char) : IsWordStart (text.takeWhile isWordChar) text where
  isStart := List.takeWhile_prefix isWordChar
  isWord _ := List.mem_takeWhile_imp
  longest := by
    rintro other ⟨rest, rfl⟩ isWord
    rw [List.takeWhile_append_of_pos isWord, List.length_append]
    exact Nat.le_add_right _ _

/-- Read backwards, the longest beginning is the longest end. -/
theorem IsWordStart.reverse {part text : List Char} (start : IsWordStart part text.reverse) :
    IsWordEnd part.reverse text where
  isEnd := by
    rw [← List.reverse_prefix, List.reverse_reverse]
    exact start.isStart
  isWord char member := start.isWord char (List.mem_reverse.mp member)
  longest := by
    intro other isEnd isWord
    have shorter := start.longest other.reverse (List.reverse_prefix.mpr isEnd)
      fun char member => isWord char (List.mem_reverse.mp member)
    rwa [List.length_reverse] at shorter ⊢

theorem isWordEnd_takeEndWhile (text : List Char) :
    IsWordEnd (Text.takeEndWhile isWordChar text) text :=
  (isWordStart_takeWhile text.reverse).reverse

/-- The parts of the text around a cursor fit together. -/
structure Fits (text : CursorLine) : Prop where
  joined : text.before ++ text.after = text.line
  word : ∃ left right, IsWordEnd left text.before ∧ IsWordStart right text.after ∧
    text.word = left ++ right ∧ ∀ style, Slot.keyField.typed style text.before = left

theorem fits_cut (line : List Char) (count : Nat) : (cut line count).Fits where
  joined := List.take_append_drop count line
  word := ⟨_, _, isWordEnd_takeEndWhile _, isWordStart_takeWhile _, rfl, fun style =>
    Slot.typed_keyField style _⟩

/-! ## Extracting -/

theorem extract_eq (content : List Char) (position : Position) :
    extract content position = (Text.lineAt? content position.line).elim absent fun line =>
      cut (dropReturn line) (position.column - 1) := by
  obtain ⟨line, column⟩ := position
  cases line with
  | zero => rfl
  | succ row =>
      simp only [extract, Text.lineAt?]
      cases (Text.lines content)[row]? <;> rfl

theorem fits_extract (content : List Char) (position : Position) :
    (extract content position).Fits := by
  rw [extract_eq]
  cases Text.lineAt? content position.line with
  | none => exact fits_cut [] 0
  | some line => exact fits_cut _ _

/-- A carriage return at the end of a line is at the end of its last part. -/
theorem dropReturn_append (before : List Char) {after : List Char} (more : after ≠ []) :
    dropReturn (before ++ after) = before ++ dropReturn after := by
  obtain ⟨last, isLast⟩ := Option.ne_none_iff_exists'.mp (List.getLast?_eq_none_iff.not.mpr more)
  rw [dropReturn, List.getLast?_append, dropReturn, isLast, Option.some_or]
  split
  · rw [List.dropLast_append_of_ne_nil more]
  · rfl

theorem length_dropReturn_le (line : List Char) : (dropReturn line).length ≤ line.length := by
  rw [dropReturn]
  split
  · rw [List.length_dropLast]
    exact Nat.sub_le _ _
  · exact Nat.le_refl _

/-- A line cut between two parts of it, without the carriage return that may end it. -/
theorem cut_dropReturn (before after : List Char) :
    let text := cut (dropReturn (before ++ after)) before.length
    text.before = (if after = [] then dropReturn before else before) ∧
      text.after = dropReturn after := by
  by_cases ends : after = []
  · subst ends
    rw [if_pos rfl, List.append_nil]
    have all := length_dropReturn_le before
    exact ⟨List.take_of_length_le all, List.drop_of_length_le all⟩
  · rw [if_neg ends, dropReturn_append before ends]
    exact ⟨List.take_left, List.drop_left⟩

/-- Cut before its last character, a line has that character behind the cursor. -/
theorem after_cut_ne_nil {line : List Char} {count : Nat} (less : count < line.length) :
    (cut line count).after ≠ [] := by
  intro none
  exact absurd (List.drop_eq_nil_iff.mp none) (Nat.not_le_of_lt less)

/-- At the position of an offset, the text around the cursor is what stands around the offset on its
line, unless the part before it has more characters than columns can be counted. -/
theorem parts_at_endOf {front back : List Char}
    (short : Text.byteLength (front ++ back) < 4294967296) :
    let before := Text.lastLineOf front
    let after := back.takeWhile (· != '\n')
    let text := extract (front ++ back) (Text.endOf front)
    text.before = (if after = [] then dropReturn before else before) ∧
        text.after = dropReturn after ↔
      (dropReturn before).length ≠ Position.limit := by
  intro before after text
  have cutHere : text = cut (dropReturn (before ++ after)) ((Text.endOf front).column - 1) := by
    simp only [text, extract_eq, Text.lineAt?_endOf short, before, after]
    rfl
  have column : (Text.endOf front).column = min (before.length + 1) Position.limit := rfl
  have spent : Text.newlineCount front + before.length ≤ Text.byteLength front :=
    Text.newlineCount_add_length_lastLineOf_le front
  have within : Text.byteLength (front ++ back) ≤ Position.limit := Nat.le_of_lt_succ short
  rw [Text.byteLength_append] at within
  have rest := Text.length_le_byteLength back
  have shorter := length_dropReturn_le before
  rw [cutHere, column]
  by_cases room : before.length < Position.limit
  · rw [Nat.min_eq_left room, Nat.succ_sub_one]
    exact iff_of_true (cut_dropReturn before after) (by omega)
  · -- The line before the cursor takes up the whole content.
    have full : before.length = Position.limit := by omega
    have atEnd : back = [] := List.eq_nil_of_length_eq_zero (by omega)
    have nothing : after = [] := by simp only [after, atEnd, List.takeWhile_nil]
    rw [nothing, List.append_nil, if_pos rfl, Nat.min_eq_right (by omega)]
    constructor
    · rintro ⟨-, behind⟩ long
      have positive : 0 < Position.limit := by decide
      exact after_cut_ne_nil (by omega) behind
    · intro dropped
      have all : (dropReturn before).length ≤ Position.limit - 1 := by omega
      exact ⟨List.take_of_length_le all, List.drop_of_length_le all⟩

/-- **The text around a position is what the source has there.** For a content of fewer than 2^32
bytes, all ways to count its lines agree, and a line is found exactly if it is one of them. At the
position of an offset the cursor has before it what follows the last newline before the offset, and
behind it what comes before the next newline, without the carriage return that may end the line.
Wherever the cursor is, the two parts make up the line, and the word around it is the longest end of
the one, which is what has been typed of a key in every style, and the longest start of the other.

Lines and columns end at 2^32 - 1. Two kinds of content have more: one of as many newlines, where
the table has a line that is not counted, and one of a single line of as many characters, where the
cursor at the end of the content is seen before the last of them. -/
theorem extract_matches_source {content : List Char}
    (short : Text.byteLength content < 4294967296) :
    Text.LinesAgree content ∧
    (∀ position, extract content position =
      (Text.lineAt? content position.line).elim absent fun line =>
        cut (dropReturn line) (position.column - 1)) ∧
    (∀ offset, Text.IsBoundary content offset →
      ∃ front back position, content = front ++ back ∧ Text.byteLength front = offset ∧
        Text.positionAt content offset = some position ∧
        let before := Text.lastLineOf front
        let after := back.takeWhile (· != '\n')
        let text := extract content position
        (text.before = (if after = [] then dropReturn before else before) ∧
            text.after = dropReturn after ↔
          (dropReturn before).length ≠ Position.limit)) ∧
    ∀ position, (extract content position).Fits := by
  refine ⟨Text.linesAgree short, extract_eq content, fun offset boundary => ?_,
    fits_extract content⟩
  obtain ⟨⟨front, back⟩, cut⟩ :=
    Option.isSome_iff_exists.mp ((Text.isSome_cutAt_iff content offset).mpr boundary)
  obtain ⟨rfl, rfl⟩ := Text.cutAt_eq_some_iff.mp cut
  refine ⟨front, back, Text.endOf front, rfl, rfl, ?_, parts_at_endOf short⟩
  exact Text.positionAt_eq_some_iff.mpr ⟨front, back, rfl, rfl, rfl⟩

/-- Between the two characters that end a line, the first of them is not seen. -/
theorem extract_matches_source_return :
    let content := "né: x\r\n- y".toList
    Text.byteLength content < 4294967296 ∧ Text.IsBoundary content 7 ∧
      ∃ position, Text.positionAt content 7 = some position ∧
        (extract content position).before = "né: x".toList ∧
        (extract content position).after = [] := by
  intro content
  have short : Text.byteLength content < 4294967296 := by decide
  have boundary : Text.IsBoundary content 7 := (Text.isSome_cutAt_iff content 7).mp (by decide)
  obtain ⟨front, back, position, split, before, placed, parts⟩ :=
    (extract_matches_source short).2.2.1 7 boundary
  have cut : Text.cutAt content 7 = some ("né: x\r".toList, "\n- y".toList) := by decide
  rw [Text.cutAt_eq_some_iff.mpr ⟨split, before⟩] at cut
  obtain ⟨rfl, rfl⟩ := Prod.mk.inj (Option.some.inj cut)
  exact ⟨short, boundary, position, placed, parts.mpr (by decide)⟩

/-! ## At the limit -/

namespace AtLimit

/-- A content of 2^32 - 1 newlines has one line more than are counted. -/
theorem lines_disagree :
    let content := List.replicate 4294967295 '\n'
    Text.byteLength content < 4294967296 ∧
      (Text.LineTable.ofText content).lineCount = 4294967296 ∧
      Text.lineCount content = 4294967295 := by
  have count : Text.newlineCount (List.replicate 4294967295 '\n') = 4294967295 :=
    List.count_replicate_self
  refine ⟨?_, ?_, ?_⟩
  · rw [Text.AtLimit.byteLength_newlines]
    omega
  · rw [Text.lineCount_ofText, count]
  · rw [Text.lineCount, count]
    rfl

end AtLimit

end CursorLine

end Blueprint
