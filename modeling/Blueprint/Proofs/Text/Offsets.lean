import Blueprint.Text.Lines
import Mathlib.Data.List.TakeWhile

/-!
# Offsets, points and positions

An offset is between two characters of a text when it is the length in bytes of some beginning of
it. Cutting a text succeeds exactly there (`cutAt_eq_some_iff`), and the text between two offsets is
what it should be (`slice?_eq_some_iff`).

The position of such an offset can be had in two ways. `Text.positionAt` reads the part before the
offset; a parser reports a point, which is turned into a position through the table of line starts.
They agree (`position_pointAt`). In a text of fewer than 2^32 bytes a later offset never has an
earlier position (`endOf_le_endOf_append`), although lines and columns are clamped: the clamp is
reached only in a text that is all newlines or all one line.
-/

set_option autoImplicit false

namespace Blueprint

namespace Position

theorem le_iff {left right : Position} :
    left ≤ right ↔
      left.line < right.line ∨ (left.line = right.line ∧ left.column ≤ right.column) := Iff.rfl

theorem le_refl (position : Position) : position ≤ position := .inr ⟨rfl, Nat.le_refl _⟩

theorem le_trans {first second third : Position} (lower : first ≤ second)
    (upper : second ≤ third) : first ≤ third := by
  rw [le_iff] at *
  omega

end Position

namespace Text

/-! ## Bytes -/

@[simp] theorem byteLength_nil : byteLength [] = 0 := rfl

@[simp] theorem byteLength_cons (char : Char) (rest : List Char) :
    byteLength (char :: rest) = char.utf8Size + byteLength rest := rfl

@[simp] theorem byteLength_append (front back : List Char) :
    byteLength (front ++ back) = byteLength front + byteLength back := by
  induction front with
  | nil => simp
  | cons char rest ih => simp only [List.cons_append, byteLength_cons, ih, Nat.add_assoc]

theorem length_le_byteLength (text : List Char) : text.length ≤ byteLength text := by
  induction text with
  | nil => exact Nat.le_refl 0
  | cons char rest ih =>
      have := char.utf8Size_pos
      simp only [List.length_cons, byteLength_cons]
      omega

/-- Of two beginnings of a text, the one with no more bytes is a beginning of the other. -/
theorem exists_append_of_byteLength_le {front back front' back' : List Char}
    (same : front ++ back = front' ++ back') (shorter : byteLength front ≤ byteLength front') :
    ∃ gap, front' = front ++ gap := by
  rcases List.append_eq_append_iff.mp same with ⟨gap, grown, _⟩ | ⟨gap, grown, _⟩
  · exact ⟨gap, grown⟩
  · have empty : gap = [] := by
      have short := length_le_byteLength gap
      rw [grown, byteLength_append] at shorter
      exact List.eq_nil_of_length_eq_zero (by omega)
    exact ⟨[], by rw [grown, empty, List.append_nil, List.append_nil]⟩

/-- Cutting succeeds exactly between two characters, and gives the two parts. -/
theorem cutAt_eq_some_iff {text front back : List Char} {offset : Nat} :
    cutAt text offset = some (front, back) ↔ text = front ++ back ∧ byteLength front = offset := by
  constructor
  · intro cut
    induction text generalizing front back offset with
    | nil =>
        cases offset with
        | zero =>
            obtain ⟨rfl, rfl⟩ := Prod.mk.inj (Option.some.inj cut)
            exact ⟨rfl, rfl⟩
        | succ offset => cases cut
    | cons char rest ih =>
        cases offset with
        | zero =>
            obtain ⟨rfl, rfl⟩ := Prod.mk.inj (Option.some.inj cut)
            exact ⟨rfl, rfl⟩
        | succ offset =>
            rw [cutAt] at cut
            by_cases fits : char.utf8Size ≤ offset + 1
            · rw [if_pos fits] at cut
              obtain ⟨⟨inner, outer⟩, shorter, joined⟩ := Option.map_eq_some_iff.mp cut
              obtain ⟨rfl, rfl⟩ := Prod.mk.inj joined
              obtain ⟨rfl, length⟩ := ih shorter
              exact ⟨rfl, by rw [byteLength_cons, length]; omega⟩
            · rw [if_neg fits] at cut
              cases cut
  · rintro ⟨rfl, rfl⟩
    induction front with
    | nil => simp [cutAt]
    | cons char rest ih =>
        have positive := char.utf8Size_pos
        obtain ⟨size, sized⟩ : ∃ size, byteLength (char :: rest) = size + 1 :=
          ⟨byteLength (char :: rest) - 1, by rw [byteLength_cons]; omega⟩
        have fits : char.utf8Size ≤ size + 1 := by rw [← sized, byteLength_cons]; omega
        have left : size + 1 - char.utf8Size = byteLength rest := by
          rw [← sized, byteLength_cons]; omega
        rw [sized, List.cons_append, cutAt, if_pos fits, left, ih]
        rfl

theorem isSome_cutAt_zero (text : List Char) : (cutAt text 0).isSome := by
  have cut : cutAt text 0 = some ([], text) := cutAt_eq_some_iff.mpr ⟨rfl, rfl⟩
  rw [cut, Option.isSome_some]

theorem isSome_cutAt_byteLength (text : List Char) : (cutAt text (byteLength text)).isSome := by
  have cut : cutAt text (byteLength text) = some (text, []) :=
    cutAt_eq_some_iff.mpr ⟨(List.append_nil text).symm, rfl⟩
  rw [cut, Option.isSome_some]

theorem le_byteLength_of_isSome_cutAt {text : List Char} {offset : Nat}
    (bounded : (cutAt text offset).isSome) : offset ≤ byteLength text := by
  obtain ⟨⟨front, back⟩, cut⟩ := Option.isSome_iff_exists.mp bounded
  obtain ⟨rfl, rfl⟩ := cutAt_eq_some_iff.mp cut
  rw [byteLength_append]
  exact Nat.le_add_right _ _

/-- What stands between two offsets. -/
def Between (text : List Char) (start stop : Nat) (between : List Char) : Prop :=
  ∃ front back, text = front ++ between ++ back ∧ byteLength front = start ∧
    byteLength (front ++ between) = stop

theorem slice?_eq_some_iff {text between : List Char} {start stop : Nat} :
    slice? text start stop = some between ↔ Between text start stop between := by
  constructor
  · intro sliced
    by_cases ordered : start ≤ stop
    · simp only [slice?, if_pos ordered, Option.bind_eq_bind, Option.bind_eq_some_iff,
        Option.pure_def, Option.some.injEq, Prod.exists] at sliced
      obtain ⟨front, after, outer, inside, back, inner, rfl⟩ := sliced
      obtain ⟨rfl, rfl⟩ := cutAt_eq_some_iff.mp outer
      obtain ⟨rfl, length⟩ := cutAt_eq_some_iff.mp inner
      exact ⟨front, back, by rw [List.append_assoc], rfl, by rw [byteLength_append]; omega⟩
    · simp only [slice?, if_neg ordered] at sliced
      cases sliced
  · rintro ⟨front, back, rfl, rfl, rfl⟩
    have ordered : byteLength front ≤ byteLength (front ++ between) := by
      rw [byteLength_append]; omega
    have outer : cutAt (front ++ between ++ back) (byteLength front) =
        some (front, between ++ back) :=
      cutAt_eq_some_iff.mpr ⟨List.append_assoc _ _ _, rfl⟩
    have inner : cutAt (between ++ back)
        (byteLength (front ++ between) - byteLength front) = some (between, back) :=
      cutAt_eq_some_iff.mpr ⟨rfl, by rw [byteLength_append]; omega⟩
    rw [slice?, if_pos ordered]
    simp only [outer, inner, Option.bind_eq_bind, Option.bind_some, Option.pure_def]

/-! ## Newlines and the last line -/

@[simp] theorem newlineCount_nil : newlineCount [] = 0 := rfl

theorem newlineCount_append (front back : List Char) :
    newlineCount (front ++ back) = newlineCount front + newlineCount back :=
  List.count_append

theorem newlineCount_newline (rest : List Char) :
    newlineCount ('\n' :: rest) = newlineCount rest + 1 :=
  List.count_cons_self

theorem newlineCount_cons_of_ne {char : Char} (other : char ≠ '\n') (rest : List Char) :
    newlineCount (char :: rest) = newlineCount rest :=
  List.count_cons_of_ne other

theorem newline_mem_cons_of_ne {char : Char} (other : char ≠ '\n') (rest : List Char) :
    '\n' ∈ char :: rest ↔ '\n' ∈ rest := by
  rw [List.mem_cons, or_iff_right other.symm]

@[simp] theorem lastLineOf_nil : lastLineOf [] = [] := rfl

theorem forall_mem_reverse_ne_newline {text : List Char} (unbroken : '\n' ∉ text) :
    ∀ char ∈ text.reverse, (char != '\n') = true := by
  intro char member
  have other : char ≠ '\n' := fun newline => unbroken (newline ▸ List.mem_reverse.mp member)
  simpa using other

/-- A text without a newline is its own last line. -/
theorem lastLineOf_of_not_mem {text : List Char} (unbroken : '\n' ∉ text) :
    lastLineOf text = text := by
  rw [lastLineOf, List.takeWhile_eq_self_iff.mpr (forall_mem_reverse_ne_newline unbroken),
    List.reverse_reverse]

/-- A character is part of the last line unless a newline stands there or later. -/
theorem lastLineOf_cons (char : Char) (rest : List Char) :
    lastLineOf (char :: rest) = if '\n' ∈ char :: rest then lastLineOf rest else char :: rest := by
  by_cases broken : '\n' ∈ rest
  · have cut : (rest.reverse.takeWhile (· != '\n')).length ≠ rest.reverse.length := by
      intro whole
      have kept := (List.takeWhile_prefix (· != '\n')).eq_of_length whole
      have member : '\n' ∈ rest.reverse.takeWhile (· != '\n') := by
        rw [kept]
        exact List.mem_reverse.mpr broken
      simpa using List.mem_takeWhile_imp member
    rw [if_pos (List.mem_cons_of_mem _ broken), lastLineOf, List.reverse_cons,
      List.takeWhile_append, if_neg cut, lastLineOf]
  · by_cases newline : char = '\n'
    · subst newline
      rw [if_pos List.mem_cons_self, lastLineOf_of_not_mem broken, lastLineOf, List.reverse_cons,
        List.takeWhile_append_of_pos (forall_mem_reverse_ne_newline broken)]
      simp
    · have unbroken : '\n' ∉ char :: rest := by
        rw [List.mem_cons, not_or]
        exact ⟨fun equal => newline equal.symm, broken⟩
      rw [if_neg unbroken, lastLineOf_of_not_mem unbroken]

theorem lastLineOf_newline (rest : List Char) : lastLineOf ('\n' :: rest) = lastLineOf rest := by
  rw [lastLineOf_cons, if_pos List.mem_cons_self]

/-- Text without a newline goes on with the last line. -/
theorem lastLineOf_append {front back : List Char} (unbroken : '\n' ∉ back) :
    lastLineOf (front ++ back) = lastLineOf front ++ back := by
  induction front with
  | nil => exact lastLineOf_of_not_mem unbroken
  | cons char rest ih =>
      have same : '\n' ∈ char :: (rest ++ back) ↔ '\n' ∈ char :: rest := by
        simp [unbroken]
      rw [List.cons_append, lastLineOf_cons, lastLineOf_cons]
      by_cases broken : '\n' ∈ char :: rest
      · rw [if_pos (same.mpr broken), if_pos broken, ih]
      · rw [if_neg fun member => broken (same.mp member), if_neg broken, List.cons_append]

/-- The last line is the end of the text. -/
theorem lastLineOf_isSuffix (text : List Char) : lastLineOf text <:+ text := by
  have front := List.takeWhile_prefix (l := text.reverse) (· != '\n')
  rw [← List.reverse_suffix, List.reverse_reverse] at front
  exact front

/-- A newline takes a byte, and so does every character of the last line. -/
theorem newlineCount_add_length_lastLineOf_le (text : List Char) :
    newlineCount text + (lastLineOf text).length ≤ byteLength text := by
  induction text with
  | nil => exact Nat.le_refl 0
  | cons char rest ih =>
      have positive := char.utf8Size_pos
      rw [lastLineOf_cons, byteLength_cons]
      by_cases newline : char = '\n'
      · subst newline
        rw [newlineCount_newline, if_pos List.mem_cons_self]
        omega
      · rw [newlineCount_cons_of_ne newline]
        by_cases broken : '\n' ∈ char :: rest
        · rw [if_pos broken]
          omega
        · have none_left : newlineCount rest = 0 :=
            List.count_eq_zero.mpr fun member => broken (List.mem_cons_of_mem _ member)
          have short := length_le_byteLength rest
          rw [if_neg broken, List.length_cons]
          omega

/-! ## Later offsets have later positions -/

/-- **Reading on never leads back**: in a text of fewer than 2^32 bytes the position after a
beginning is not past the position after a longer one. -/
theorem endOf_le_endOf_append {front back : List Char}
    (short : byteLength (front ++ back) < 4294967296) : endOf front ≤ endOf (front ++ back) := by
  have whole := newlineCount_add_length_lastLineOf_le (front ++ back)
  have first := newlineCount_add_length_lastLineOf_le front
  rw [byteLength_append] at short whole
  simp only [Position.le_iff, endOf, newlineCount_append] at *
  by_cases broken : '\n' ∈ back
  · -- the clamp makes the lines meet only if every byte is a newline, and then both columns are 1
    have more : 0 < newlineCount back := List.count_pos_iff.mpr broken
    have spent : newlineCount back ≤ byteLength back :=
      (List.count_le_length).trans (length_le_byteLength back)
    simp only [Position.clamp, Position.limit]
    omega
  · have none_more : newlineCount back = 0 := List.count_eq_zero.mpr broken
    rw [lastLineOf_append broken, List.length_append]
    simp only [Position.clamp, Position.limit]
    omega

/-! ## Points -/

theorem utf8Size_newline : ('\n' : Char).utf8Size = 1 := rfl

/-- The point after a beginning of a text that goes on from `here` on a row started at
`lineStart`. -/
theorem pointFrom_append (front back : List Char) (row : Nat) {lineStart here : Nat}
    (started : lineStart ≤ here) :
    pointFrom (here + byteLength front) row lineStart here (front ++ back) =
      ⟨row + newlineCount front,
        byteLength (lastLineOf front) + if '\n' ∈ front then 0 else here - lineStart⟩ := by
  induction front generalizing row lineStart here with
  | nil => cases back <;> simp [pointFrom]
  | cons char rest ih =>
      have positive := char.utf8Size_pos
      have ahead : ¬ here + byteLength (char :: rest) ≤ here := by
        rw [byteLength_cons]
        omega
      rw [List.cons_append, pointFrom, if_neg ahead, lastLineOf_cons]
      by_cases newline : char = '\n'
      · subst newline
        have offset : here + byteLength ('\n' :: rest) = here + 1 + byteLength rest := by
          rw [byteLength_cons, utf8Size_newline]
          omega
        rw [if_pos rfl, offset, ih (row + 1) (Nat.le_refl _), newlineCount_newline,
          if_pos List.mem_cons_self, if_pos List.mem_cons_self, Nat.sub_self]
        simp only [ite_self, Nat.add_zero, Nat.add_assoc, Nat.add_comm 1]
      · have offset : here + byteLength (char :: rest) =
            here + char.utf8Size + byteLength rest := by
          rw [byteLength_cons]
          omega
        have mem_iff := newline_mem_cons_of_ne newline rest
        rw [if_neg newline, offset, ih row (by omega), newlineCount_cons_of_ne newline]
        by_cases broken : '\n' ∈ rest
        · rw [if_pos broken, if_pos (mem_iff.mpr broken), if_pos (mem_iff.mpr broken)]
        · have unbroken : '\n' ∉ char :: rest := fun member => broken (mem_iff.mp member)
          rw [if_neg broken, if_neg unbroken, if_neg unbroken, lastLineOf_of_not_mem broken,
            byteLength_cons]
          congr 1
          omega

/-- The point of an offset: the newlines before it, and the bytes of its line before it. -/
theorem pointAt_append (front back : List Char) :
    pointAt (front ++ back) (byteLength front) =
      ⟨newlineCount front, byteLength (lastLineOf front)⟩ := by
  have point := pointFrom_append front back 0 (Nat.le_refl 0)
  rw [Nat.zero_add, Nat.zero_add] at point
  rw [pointAt, point, Nat.sub_self, ite_self, Nat.add_zero]

/-! ## The table of line starts -/

theorem length_lineStartsFrom (here : Nat) (text : List Char) :
    (lineStartsFrom here text).length = newlineCount text := by
  induction text generalizing here with
  | nil => rfl
  | cons char rest ih =>
      by_cases newline : char = '\n'
      · subst newline
        rw [lineStartsFrom, if_pos rfl, List.length_cons, ih, newlineCount_newline]
      · rw [lineStartsFrom, if_neg newline, ih, newlineCount_cons_of_ne newline]

/-- The table has, under the number of newlines read, where the line being read started. -/
theorem getElem?_lineStartsFrom (front back : List Char) (lineStart here : Nat) :
    (lineStart :: lineStartsFrom here (front ++ back))[newlineCount front]? =
      some (if '\n' ∈ front then here + byteLength front - byteLength (lastLineOf front)
        else lineStart) := by
  induction front generalizing lineStart here with
  | nil => simp
  | cons char rest ih =>
      by_cases newline : char = '\n'
      · subst newline
        rw [List.cons_append, lineStartsFrom, if_pos rfl, newlineCount_newline,
          List.getElem?_cons_succ, ih, if_pos List.mem_cons_self, lastLineOf_newline,
          byteLength_cons, utf8Size_newline]
        by_cases broken : '\n' ∈ rest
        · rw [if_pos broken]
          congr 1
          omega
        · rw [if_neg broken, lastLineOf_of_not_mem broken]
          congr 1
          omega
      · have mem_iff := newline_mem_cons_of_ne newline rest
        rw [List.cons_append, lineStartsFrom, if_neg newline, newlineCount_cons_of_ne newline, ih,
          lastLineOf_cons, byteLength_cons]
        by_cases broken : '\n' ∈ rest
        · rw [if_pos broken, if_pos (mem_iff.mpr broken), if_pos (mem_iff.mpr broken)]
          congr 1
          omega
        · rw [if_neg broken, if_neg fun member => broken (mem_iff.mp member)]

/-- **The two ways to a position agree**: the table turns the point of an offset into the position
right after what comes before the offset. -/
theorem position_pointAt (front back : List Char) :
    (LineTable.ofText (front ++ back)).position
        (pointAt (front ++ back) (byteLength front)) = endOf front := by
  obtain ⟨lines, split⟩ := lastLineOf_isSuffix front
  have bytes : byteLength front = byteLength lines + byteLength (lastLineOf front) := by
    rw [← byteLength_append, split]
  have size : (LineTable.ofText (front ++ back)).starts.size - 1 =
      newlineCount (front ++ back) := by
    simp [LineTable.ofText, length_lineStartsFrom]
  have row : min (newlineCount front) (newlineCount (front ++ back)) = newlineCount front := by
    rw [newlineCount_append]
    omega
  have start : (LineTable.ofText (front ++ back)).starts[newlineCount front]?.getD 0 =
      byteLength lines := by
    have found := getElem?_lineStartsFrom front back 0 0
    simp only [LineTable.ofText, List.getElem?_toArray, found, Option.getD_some]
    by_cases broken : '\n' ∈ front
    · rw [if_pos broken]
      omega
    · rw [lastLineOf_of_not_mem broken] at bytes
      rw [if_neg broken]
      omega
  have stop : min (byteLength lines + byteLength (lastLineOf front))
      (byteLength (front ++ back)) = byteLength front := by
    rw [byteLength_append]
    omega
  have between : slice? (front ++ back) (byteLength lines) (byteLength front) =
      some (lastLineOf front) :=
    slice?_eq_some_iff.mpr ⟨lines, back, by rw [split], rfl, by rw [split]⟩
  rw [pointAt_append, LineTable.position]
  simp only [size, row, start]
  simp only [LineTable.ofText, stop, between, endOf]

/-- The position that the table of a text gives to an offset. -/
def placeAt (text : List Char) (offset : Nat) : Position :=
  (LineTable.ofText text).position (pointAt text offset)

theorem placeAt_zero (text : List Char) : placeAt text 0 = .first := position_pointAt [] text

theorem placeAt_byteLength (text : List Char) : placeAt text (byteLength text) = endOf text := by
  have place := position_pointAt text []
  rwa [List.append_nil] at place

/-- Later offsets have later positions. -/
theorem placeAt_le_placeAt {text : List Char} {early late : Nat}
    (short : byteLength text < 4294967296) (earlyBounded : (cutAt text early).isSome)
    (lateBounded : (cutAt text late).isSome) (ordered : early ≤ late) :
    placeAt text early ≤ placeAt text late := by
  obtain ⟨⟨front, back⟩, cut⟩ := Option.isSome_iff_exists.mp earlyBounded
  obtain ⟨⟨front', back'⟩, cut'⟩ := Option.isSome_iff_exists.mp lateBounded
  obtain ⟨rfl, rfl⟩ := cutAt_eq_some_iff.mp cut
  obtain ⟨same, rfl⟩ := cutAt_eq_some_iff.mp cut'
  obtain ⟨gap, rfl⟩ := exists_append_of_byteLength_le same ordered
  rw [placeAt, placeAt, position_pointAt, same, position_pointAt]
  apply endOf_le_endOf_append
  rw [same, byteLength_append] at short
  omega

end Text

end Blueprint
