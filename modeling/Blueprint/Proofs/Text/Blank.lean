import Blueprint.Cursor.Line

/-!
# Trimming

Blanks at an end of a text go away with trimming (`trimStart_append_of_allBlank`,
`trimEnd_append_of_allBlank`) and nothing else does (`exists_eq_trimEnd_append`): the first and last
character that are no blanks stop it (`trimStart_cons`, `trimEnd_append_cons`). Letters, digits and
the other characters of words are no blanks (`isBlank_of_isWordChar`).
-/

set_option autoImplicit false

namespace Blueprint.Text

/-! ## Characters that are no blanks -/

/-- The visible characters of ASCII are no blanks. -/
theorem isBlank_of_visible {char : Char} (low : 33 ≤ char.toNat) (high : char.toNat ≤ 126) :
    isBlank char = false := by
  simp [isBlank, blankRanges]
  omega

theorem isBlank_of_isDigit {char : Char} (digit : char.isDigit = true) : isBlank char = false := by
  obtain ⟨low, high⟩ : 48 ≤ char.toNat ∧ char.toNat ≤ 57 := by
    simpa [Char.isDigit, UInt32.le_iff_toNat_le] using digit
  exact isBlank_of_visible (by omega) (by omega)

theorem isBlank_of_isAlphanum {char : Char} (alphanum : char.isAlphanum = true) :
    isBlank char = false := by
  have classes : ((char.isUpper || char.isLower) || char.isDigit) = true := alphanum
  rw [Bool.or_eq_true, Bool.or_eq_true] at classes
  rcases classes with (upper | lower) | digit
  · obtain ⟨low, high⟩ : 'A'.val ≤ char.val ∧ char.val ≤ 'Z'.val := of_decide_eq_true upper
    exact isBlank_of_visible (Nat.le_trans (by decide) low) (Nat.le_trans high (by decide))
  · obtain ⟨low, high⟩ := Bool.and_eq_true_iff.mp lower
    exact isBlank_of_visible (Nat.le_trans (by decide) (of_decide_eq_true low))
      (Nat.le_trans (of_decide_eq_true high) (by decide))
  · exact isBlank_of_isDigit digit

theorem isBlank_of_isWordChar {char : Char} (word : isWordChar char = true) :
    isBlank char = false := by
  simp only [isWordChar, Bool.or_eq_true, beq_iff_eq] at word
  rcases word with ((alphanum | rfl) | rfl) | rfl
  · exact isBlank_of_isAlphanum alphanum
  · decide
  · decide
  · decide

/-! ## What is trimmed -/

variable {front back gap : List Char} {char : Char}

theorem isBlank_of_mem (blank : allBlank gap = true) : ∀ char ∈ gap, isBlank char = true :=
  List.all_eq_true.mp blank

theorem allBlank_append (left right : List Char) :
    allBlank (left ++ right) = (allBlank left && allBlank right) := List.all_append

theorem allBlank_replicate (count : Nat) : allBlank (List.replicate count ' ') = true := by
  rw [allBlank, List.all_eq_true]
  intro char member
  rw [List.eq_of_mem_replicate member]
  decide

theorem trimStart_append_of_allBlank (blank : allBlank gap = true) (text : List Char) :
    trimStart (gap ++ text) = trimStart text :=
  List.dropWhile_append_of_pos (isBlank_of_mem blank)

theorem trimStart_cons (visible : isBlank char = false) (rest : List Char) :
    trimStart (char :: rest) = char :: rest :=
  List.dropWhile_cons_of_neg (by rw [visible]; exact Bool.false_ne_true)

theorem trimEnd_append_of_allBlank (blank : allBlank gap = true) (text : List Char) :
    trimEnd (text ++ gap) = trimEnd text := by
  rw [trimEnd, List.reverse_append, List.dropWhile_append_of_pos, trimEnd]
  intro char member
  exact isBlank_of_mem blank char (List.mem_reverse.mp member)

/-- Nothing is trimmed before a character that is no blank. -/
theorem trimEnd_append_cons (visible : isBlank char = false) (front back : List Char) :
    trimEnd (front ++ char :: back) = front ++ char :: trimEnd back := by
  have stops : (char :: front.reverse).dropWhile isBlank = char :: front.reverse :=
    trimStart_cons visible _
  rw [trimEnd, List.reverse_append, List.reverse_cons, List.append_assoc, List.singleton_append,
    List.dropWhile_append, stops, trimEnd]
  split
  · next nothing =>
      rw [List.isEmpty_iff] at nothing
      rw [nothing]
      simp
  · simp

/-- Only blanks are trimmed. -/
theorem exists_eq_trimEnd_append (text : List Char) :
    ∃ gap, allBlank gap = true ∧ text = trimEnd text ++ gap := by
  refine ⟨(text.reverse.takeWhile isBlank).reverse, ?_, ?_⟩
  · rw [allBlank, List.all_reverse]
    exact List.all_takeWhile
  · rw [trimEnd, ← List.reverse_append, List.takeWhile_append_dropWhile, List.reverse_reverse]

theorem trimEnd_isPrefix (text : List Char) : trimEnd text <+: text := by
  obtain ⟨gap, -, split⟩ := exists_eq_trimEnd_append text
  exact ⟨gap, split.symm⟩

/-- The last character that is left is the last one that is no blank. -/
theorem getLast?_trimEnd (visible : isBlank char = false) (blank : allBlank gap = true)
    (front : List Char) : (trimEnd (front ++ char :: gap)).getLast? = some char := by
  have nothing : trimEnd gap = [] := trimEnd_append_of_allBlank blank []
  rw [trimEnd_append_cons visible, nothing, List.getLast?_concat]

theorem dropWhile_eq_self {dropped : Char → Bool} {text : List Char}
    (first : ∀ char ∈ text.head?, dropped char = false) : text.dropWhile dropped = text := by
  cases text with
  | nil => rfl
  | cons char rest => rw [List.dropWhile_cons_of_neg (by simp [first char rfl])]

/-- Nothing is trimmed from a text that neither begins nor ends with what is trimmed. -/
theorem trimmed_eq_self {dropped : Char → Bool} {text : List Char}
    (first : ∀ char ∈ text.head?, dropped char = false)
    (last : ∀ char ∈ text.getLast?, dropped char = false) :
    ((text.dropWhile dropped).reverse.dropWhile dropped).reverse = text := by
  rw [dropWhile_eq_self first, dropWhile_eq_self (by rwa [List.head?_reverse]),
    List.reverse_reverse]

end Blueprint.Text
