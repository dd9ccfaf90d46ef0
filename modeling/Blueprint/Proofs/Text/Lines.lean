import Blueprint.Proofs.Text.Offsets

/-!
# The lines of a text

A text has one line more than it has newlines (`length_lines`), and so has its table of lines. After
any beginning of a text the line there is the last line of that beginning and what follows up to the
next newline (`getElem?_lines_append`): cutting a text into lines and counting its newlines come to
the same.
-/

set_option autoImplicit false

namespace Blueprint.Text

theorem length_lines (content : List Char) :
    (lines content).length = newlineCount content + 1 := by
  induction content with
  | nil => rfl
  | cons char rest ih =>
      rw [lines, newlineCount]
      by_cases newline : char = '\n'
      · rw [if_pos newline, newline, List.count_cons_self, List.length_cons, ih, newlineCount]
      · rw [if_neg newline, List.count_cons_of_ne newline]
        cases below : lines rest with
        | nil =>
            rw [below] at ih
            cases ih
        | cons line later =>
            rw [below] at ih
            exact ih

theorem lineCount_ofText (content : List Char) :
    (LineTable.ofText content).lineCount = newlineCount content + 1 := by
  rw [LineTable.lineCount, LineTable.ofText, List.size_toArray, List.length_cons,
    length_lineStartsFrom]

theorem lines_newline (rest : List Char) : lines ('\n' :: rest) = [] :: lines rest := by
  rw [lines, if_pos rfl]

/-- A character that is no newline goes on with the first line. -/
theorem exists_lines_cons {char : Char} (other : char ≠ '\n') (rest : List Char) :
    ∃ line later, lines rest = line :: later ∧ lines (char :: rest) = (char :: line) :: later := by
  cases below : lines rest with
  | nil =>
      have length := length_lines rest
      rw [below] at length
      cases length
  | cons line later => exact ⟨line, later, rfl, by rw [lines, if_neg other, below]⟩

/-- The first line ends before the first newline. -/
theorem head?_lines (text : List Char) :
    (lines text).head? = some (text.takeWhile (· != '\n')) := by
  induction text with
  | nil => rfl
  | cons char rest ih =>
      by_cases newline : char = '\n'
      · subst newline
        rw [lines_newline]
        rfl
      · obtain ⟨line, later, below, here⟩ := exists_lines_cons newline rest
        rw [below] at ih
        rw [here, List.takeWhile_cons_of_pos (by simpa using newline), ← Option.some.inj ih]
        rfl

/-- The line that a beginning of a text ends in. -/
theorem getElem?_lines_append (front back : List Char) :
    (lines (front ++ back))[newlineCount front]? =
      some (lastLineOf front ++ back.takeWhile (· != '\n')) := by
  induction front with
  | nil =>
      rw [newlineCount_nil, lastLineOf_nil, ← List.head?_eq_getElem?]
      exact head?_lines back
  | cons char rest ih =>
      by_cases newline : char = '\n'
      · subst newline
        rw [List.cons_append, lines_newline, newlineCount_newline, List.getElem?_cons_succ, ih,
          lastLineOf_newline]
      · obtain ⟨line, later, below, here⟩ := exists_lines_cons newline (rest ++ back)
        rw [below] at ih
        rw [List.cons_append, here, newlineCount_cons_of_ne newline, lastLineOf_cons]
        by_cases broken : '\n' ∈ rest
        · obtain ⟨count, further⟩ := Nat.exists_eq_add_of_lt (List.count_pos_iff.mpr broken)
          rw [newlineCount, further] at ih ⊢
          rw [if_pos (List.mem_cons_of_mem _ broken), ← ih]
          rfl
        · have first : newlineCount rest = 0 := List.count_eq_zero.mpr broken
          rw [first, lastLineOf_of_not_mem broken] at ih
          rw [first, if_neg fun member => broken ((newline_mem_cons_of_ne newline rest).mp member)]
          exact congrArg (fun line => some (char :: line)) (Option.some.inj ih)

end Blueprint.Text
