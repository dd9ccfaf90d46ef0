import Blueprint.Proofs.Text.Offsets

/-!
# Positions of offsets

Offsets count bytes, and those between two characters can be told from the bytes alone: there a
character begins, or the text ends (`IsBoundary`). They are the offsets that have a position
(`isSome_positionAt_iff`).

The position is the same whether it is counted from the start of the text or looked up from a
parser's point. A later offset has a later position, but for one exception at the limit of lines
and columns: a text of 2^32 - 1 bytes that are all newlines, or all characters of a single line,
needs one more line or column at its very end (`Overruns`). There, and only there, an offset shares
its position with the one before it (`endOf_lt_endOf_append_iff`, `endOf_eq_endOf_append_iff`).
-/

set_option autoImplicit false

namespace Blueprint

namespace Position

theorem lt_iff {left right : Position} :
    left < right ↔
      left.line < right.line ∨ (left.line = right.line ∧ left.column < right.column) := Iff.rfl

theorem eq_iff_not_lt {left right : Position} (ordered : left ≤ right) :
    left = right ↔ ¬left < right := by
  obtain ⟨line, column⟩ := left
  obtain ⟨otherLine, otherColumn⟩ := right
  rw [le_iff] at ordered
  rw [lt_iff, Position.mk.injEq]
  simp only at ordered ⊢
  omega

end Position

namespace Text

/-! ## Boundaries between characters -/

/-- The UTF-8 form of a text. -/
def bytes (text : List Char) : List UInt8 := text.flatMap String.utf8EncodeChar

/-- An offset is the end of a text, or the byte there is the first one of a character. -/
def IsBoundary (text : List Char) (offset : Nat) : Prop :=
  offset = (bytes text).length ∨ ∃ byte, (bytes text)[offset]? = some byte ∧ byte.IsUTF8FirstByte

theorem length_bytes (text : List Char) : (bytes text).length = byteLength text := by
  induction text with
  | nil => rfl
  | cons char rest ih =>
      rw [bytes] at ih
      rw [bytes, List.flatMap_cons, List.length_append, ih, String.length_utf8EncodeChar,
        byteLength_cons]

/-- Inside the first character there is a boundary only at its start. -/
theorem isBoundary_cons_of_lt {char : Char} {offset : Nat} (inside : offset < char.utf8Size)
    (rest : List Char) : IsBoundary (char :: rest) offset ↔ offset = 0 := by
  have length := length_bytes (char :: rest)
  rw [byteLength_cons] at length
  have here : (bytes (char :: rest))[offset]? = (String.utf8EncodeChar char)[offset]? := by
    rw [bytes, List.flatMap_cons, List.getElem?_append_left]
    rwa [String.length_utf8EncodeChar]
  have encoded : offset < (String.utf8EncodeChar char).length := by
    rwa [String.length_utf8EncodeChar]
  rw [IsBoundary, here, List.getElem?_eq_getElem encoded, length]
  constructor
  · rintro (atEnd | ⟨byte, same, first⟩)
    · omega
    · obtain rfl := Option.some.inj same
      exact UInt8.isUTF8FirstByte_getElem_utf8EncodeChar.mp first
  · intro atStart
    exact .inr ⟨_, rfl, UInt8.isUTF8FirstByte_getElem_utf8EncodeChar.mpr atStart⟩

/-- Behind the first character boundaries are those of the rest. -/
theorem isBoundary_cons_of_le {char : Char} {offset : Nat} (behind : char.utf8Size ≤ offset)
    (rest : List Char) :
    IsBoundary (char :: rest) offset ↔ IsBoundary rest (offset - char.utf8Size) := by
  have later : (bytes (char :: rest))[offset]? = (bytes rest)[offset - char.utf8Size]? := by
    rw [bytes, List.flatMap_cons, List.getElem?_append_right, String.length_utf8EncodeChar, bytes]
    rwa [String.length_utf8EncodeChar]
  rw [IsBoundary, IsBoundary, later, length_bytes, length_bytes, byteLength_cons]
  have ends : offset = char.utf8Size + byteLength rest ↔
      offset - char.utf8Size = byteLength rest := by omega
  rw [ends]

/-- A text can be cut at the boundaries between its characters. -/
theorem isSome_cutAt_iff (text : List Char) (offset : Nat) :
    (cutAt text offset).isSome = true ↔ IsBoundary text offset := by
  induction text generalizing offset with
  | nil => cases offset <;> simp [cutAt, IsBoundary, bytes]
  | cons char rest ih =>
      have positive := char.utf8Size_pos
      cases offset with
      | zero => exact iff_of_true rfl ((isBoundary_cons_of_lt positive rest).mpr rfl)
      | succ offset =>
          rw [cutAt]
          by_cases behind : char.utf8Size ≤ offset + 1
          · rw [if_pos behind, Option.isSome_map, ih, isBoundary_cons_of_le behind]
          · rw [if_neg behind, isBoundary_cons_of_lt (by omega)]
            simp

/-- Exactly the boundaries inside a text have a position. -/
theorem isSome_positionAt_iff (text : List Char) (offset : Nat) :
    (positionAt text offset).isSome = true ↔ offset ≤ byteLength text ∧ IsBoundary text offset := by
  rw [positionAt, Option.isSome_map, ← isSome_cutAt_iff]
  exact ⟨fun cut => ⟨le_byteLength_of_isSome_cutAt cut, cut⟩, And.right⟩

/-- The position of an offset is the one after what comes before it. -/
theorem positionAt_eq_some_iff {text : List Char} {offset : Nat} {position : Position} :
    positionAt text offset = some position ↔
      ∃ front back, text = front ++ back ∧ byteLength front = offset ∧ endOf front = position := by
  simp only [positionAt, Option.map_eq_some_iff, Prod.exists, cutAt_eq_some_iff, and_assoc]

theorem positionAt_byteLength (text : List Char) :
    positionAt text (byteLength text) = some (endOf text) :=
  positionAt_eq_some_iff.mpr ⟨text, [], (List.append_nil text).symm, rfl, rfl⟩

/-- No offset of a text has a position past the end of the text. -/
theorem le_endOf_of_positionAt {text : List Char} (short : byteLength text < 4294967296)
    {offset : Nat} {position : Position} (placed : positionAt text offset = some position) :
    position ≤ endOf text := by
  obtain ⟨front, back, rfl, -, rfl⟩ := positionAt_eq_some_iff.mp placed
  exact endOf_le_endOf_append short

/-- No text ends before the first position. -/
theorem first_le_endOf (text : List Char) : .first ≤ endOf text := by
  simp only [Position.le_iff, Position.first, endOf, Position.clamp, Position.limit]
  omega

/-! ## Later offsets -/

/-- A text ends past the last line or the last column that can be counted. -/
def Overruns (text : List Char) : Prop :=
  Position.limit ≤ newlineCount text ∨ Position.limit ≤ (lastLineOf text).length

theorem Overruns.limit_le_byteLength {text : List Char} (exceeds : Overruns text) :
    Position.limit ≤ byteLength text := by
  have spent := newlineCount_add_length_lastLineOf_le text
  rcases exceeds with lines | columns <;> omega

/-- In a text of fewer than 2^32 bytes the position after a beginning is before the position after a
longer one, unless that one is a single byte longer and overruns. -/
theorem endOf_lt_endOf_append_iff {front back : List Char}
    (short : byteLength (front ++ back) < 4294967296) (more : back ≠ []) :
    endOf front < endOf (front ++ back) ↔ ¬(Overruns (front ++ back) ∧ byteLength back = 1) := by
  have whole := newlineCount_add_length_lastLineOf_le (front ++ back)
  have first := newlineCount_add_length_lastLineOf_le front
  have spent := length_le_byteLength back
  have columns : 0 < back.length := List.length_pos_iff.mpr more
  have within : byteLength (front ++ back) ≤ Position.limit := Nat.le_of_lt_succ short
  rw [byteLength_append] at within
  rw [newlineCount_append, byteLength_append] at whole
  simp only [Position.lt_iff, endOf, Overruns, newlineCount_append, Position.clamp]
  -- What the limit is no longer matters, only that the text is within it.
  generalize Position.limit = limit at *
  by_cases broken : '\n' ∈ back
  · have lines : 0 < newlineCount back := List.count_pos_iff.mpr broken
    have newlines : newlineCount back ≤ back.length := List.count_le_length
    constructor
    · rintro later ⟨exceeds, one⟩
      rcases exceeds with lines | columns <;> omega
    · intro room
      left
      omega
  · have none_more : newlineCount back = 0 := List.count_eq_zero.mpr broken
    rw [lastLineOf_append broken, List.length_append] at whole ⊢
    constructor
    · rintro later ⟨exceeds, one⟩
      rcases exceeds with lines | columns <;> omega
    · intro room
      right
      omega

/-- Two beginnings have the same position just when the longer one is a single byte longer and
overruns. -/
theorem endOf_eq_endOf_append_iff {front back : List Char}
    (short : byteLength (front ++ back) < 4294967296) (more : back ≠ []) :
    endOf front = endOf (front ++ back) ↔ Overruns (front ++ back) ∧ byteLength back = 1 := by
  have ordered : endOf front ≤ endOf (front ++ back) := endOf_le_endOf_append short
  rw [Position.eq_iff_not_lt ordered, endOf_lt_endOf_append_iff short more, Classical.not_not]

/-- A text overruns at its last byte if a beginning of it does, since nothing can follow then. -/
theorem overruns_append_iff {front gap back : List Char}
    (short : byteLength (front ++ gap ++ back) < 4294967296) (more : gap ≠ []) :
    Overruns (front ++ gap) ∧ byteLength gap = 1 ↔
      Overruns (front ++ gap ++ back) ∧ byteLength front + 1 = byteLength (front ++ gap ++ back) := by
  have some_more : 0 < byteLength gap :=
    Nat.lt_of_lt_of_le (List.length_pos_iff.mpr more) (length_le_byteLength gap)
  have rest := length_le_byteLength back
  have whole := byteLength_append (front ++ gap) back
  have middle := byteLength_append front gap
  constructor
  · rintro ⟨exceeds, one⟩
    have full := exceeds.limit_le_byteLength
    have atEnd : back = [] := List.eq_nil_of_length_eq_zero (by rw [Position.limit] at full; omega)
    subst atEnd
    rw [List.append_nil] at *
    exact ⟨exceeds, by omega⟩
  · rintro ⟨exceeds, last⟩
    have atEnd : back = [] := List.eq_nil_of_length_eq_zero (by omega)
    subst atEnd
    rw [List.append_nil] at *
    exact ⟨exceeds, by omega⟩

/-- **The ways to a position agree, and order is kept.** In a text of fewer than 2^32 bytes an
offset has a position if and only if it is inside the text and between two characters. The table of
lines gives the same position to the point of the offset: the newlines before it, and the bytes
since the last of them. A later offset has a later position, unless the text overruns and they are
its last two offsets: then both have one position. -/
theorem positions_of_offsets {text : List Char} (short : byteLength text < 4294967296) :
    (∀ offset, (positionAt text offset).isSome = true ↔
      offset ≤ byteLength text ∧ IsBoundary text offset) ∧
    (∀ offset position, positionAt text offset = some position →
      ∃ front, front <+: text ∧ byteLength front = offset ∧
        (LineTable.ofText text).position ⟨newlineCount front, byteLength (lastLineOf front)⟩ =
          position) ∧
    ∀ early late first second, early < late →
      positionAt text early = some first → positionAt text late = some second →
        (first < second ↔ ¬(Overruns text ∧ early + 1 = byteLength text)) ∧
          (first = second ↔ Overruns text ∧ early + 1 = byteLength text) := by
  refine ⟨isSome_positionAt_iff text, ?_, ?_⟩
  · intro offset position placed
    obtain ⟨front, back, rfl, rfl, rfl⟩ := positionAt_eq_some_iff.mp placed
    refine ⟨front, List.prefix_append front back, rfl, ?_⟩
    rw [← pointAt_append front back, position_pointAt]
  · intro early late first second ordered placedFirst placedSecond
    obtain ⟨front, back, rfl, rfl, rfl⟩ := positionAt_eq_some_iff.mp placedFirst
    obtain ⟨front', back', same, rfl, rfl⟩ := positionAt_eq_some_iff.mp placedSecond
    obtain ⟨gap, rfl⟩ := exists_append_of_byteLength_le same (Nat.le_of_lt ordered)
    rw [same] at short ⊢
    have bytes := byteLength_append (front ++ gap) back'
    have more : gap ≠ [] := by
      rintro rfl
      simp at ordered
    have inside : byteLength (front ++ gap) < 4294967296 := by omega
    rw [endOf_lt_endOf_append_iff inside more, endOf_eq_endOf_append_iff inside more, not_iff_not,
      and_self_iff]
    exact overruns_append_iff short more

/-- Past a letter of two bytes, in the middle of which there is no boundary. -/
theorem positions_of_offsets_accented :
    let text := "aé\nb".toList
    byteLength text < 4294967296 ∧ ¬(2 ≤ byteLength text ∧ IsBoundary text 2) ∧
      positionAt text 1 = some ⟨1, 2⟩ ∧ positionAt text 3 = some ⟨1, 3⟩ ∧
      (⟨1, 2⟩ : Position) < ⟨1, 3⟩ := by
  intro text
  have short : byteLength text < 4294967296 := by decide
  obtain ⟨defined, -, ordered⟩ := positions_of_offsets short
  have early : positionAt text 1 = some ⟨1, 2⟩ := by decide
  have late : positionAt text 3 = some ⟨1, 3⟩ := by decide
  refine ⟨short, fun boundary => ?_, early, late, ?_⟩
  · exact absurd ((defined 2).mpr boundary) (by decide)
  · refine (ordered 1 3 _ _ (by decide) early late).1.mpr fun ⟨_, next⟩ => ?_
    exact absurd next (by decide)

/-! ## At the limit -/

namespace AtLimit

theorem byteLength_newlines (count : Nat) : byteLength (List.replicate count '\n') = count := by
  induction count with
  | zero => rfl
  | succ count ih =>
      rw [List.replicate_succ, byteLength_cons, ih, utf8Size_newline, Nat.add_comm]

theorem lastLineOf_newlines (count : Nat) : lastLineOf (List.replicate count '\n') = [] := by
  induction count with
  | zero => rfl
  | succ count ih => rw [List.replicate_succ, lastLineOf_newline, ih]

theorem positionAt_newlines {offset count : Nat} (inside : offset ≤ count) :
    positionAt (List.replicate count '\n') offset = some ⟨Position.clamp (offset + 1), 1⟩ := by
  refine positionAt_eq_some_iff.mpr ⟨List.replicate offset '\n', List.replicate (count - offset) '\n',
    ?_, byteLength_newlines offset, ?_⟩
  · rw [List.replicate_append_replicate, Nat.add_sub_cancel' inside]
  · rw [endOf, lastLineOf_newlines, newlineCount, List.count_replicate_self]
    rfl

/-- The last two offsets of a text of 2^32 - 1 newlines have one position. -/
theorem last_offsets_meet :
    let text := List.replicate 4294967295 '\n'
    byteLength text < 4294967296 ∧ ∃ position,
      positionAt text 4294967294 = some position ∧ positionAt text 4294967295 = some position := by
  refine ⟨?_, ⟨Position.limit, 1⟩, ?_, ?_⟩
  · rw [byteLength_newlines]
    omega
  · exact positionAt_newlines (by omega)
  · exact positionAt_newlines (by omega)

end AtLimit

end Text

end Blueprint
