import Blueprint.Cursor.Style
import Blueprint.Proofs.Text.Blank

/-!
# What scanners pass over

The scanners of a line look out for a few characters. Text without them is passed over, and the
scanner goes on behind it as it was (`openBracketsFrom_append`, `openQuoteFrom_append`,
`afterMappingColon?_append`).
-/

set_option autoImplicit false

namespace Blueprint.Text

/-- The characters that open or close strings and containers, and the one that escapes them. -/
def isReserved (char : Char) : Bool :=
  char == '"' || char == '\\' || char == '{' || char == '}' || char == '[' || char == ']'

variable {text rest : List Char}

/-- No character of a class is reserved if the reserved ones are not of the class. -/
theorem isReserved_of_apart {ofClass : Char → Bool}
    (apart : ['"', '\\', '{', '}', '[', ']'].any ofClass = false) {char : Char}
    (here : ofClass char = true) : isReserved char = false := by
  rw [← Bool.not_eq_true]
  intro reserved
  have listed : char ∈ ['"', '\\', '{', '}', '[', ']'] := by
    simpa [isReserved, or_assoc] using reserved
  exact List.any_eq_false.mp apart char listed here

theorem isReserved_of_isBlank {char : Char} (blank : isBlank char = true) :
    isReserved char = false := isReserved_of_apart (by decide) blank

theorem isReserved_of_allBlank (blank : allBlank text = true) :
    ∀ char ∈ text, isReserved char = false :=
  fun char member => isReserved_of_isBlank (isBlank_of_mem blank char member)

/-- Text without reserved characters opens and closes no container. -/
theorem openBracketsFrom_append (plain : ∀ char ∈ text, isReserved char = false) (quoted : Bool)
    (stack rest : List Char) :
    openBracketsFrom quoted stack (text ++ rest) = openBracketsFrom quoted stack rest := by
  induction text with
  | nil => rfl
  | cons char later ih =>
      obtain ⟨here, further⟩ := List.forall_mem_cons.mp plain
      simp only [isReserved, Bool.or_eq_false_iff] at here
      obtain ⟨⟨⟨⟨⟨quote, -⟩, leftBrace⟩, rightBrace⟩, leftBracket⟩, rightBracket⟩ := here
      rw [List.cons_append, openBracketsFrom, quote, leftBrace, rightBrace, leftBracket,
        rightBracket, ih further]
      cases quoted <;> rfl

/-- Text without reserved characters opens and closes no string. -/
theorem openQuoteFrom_append (plain : ∀ char ∈ text, isReserved char = false) (here : Nat)
    (opened : Option Nat) (rest : List Char) :
    openQuoteFrom here opened false (text ++ rest) =
      openQuoteFrom (here + text.length) opened false rest := by
  induction text generalizing here with
  | nil => rfl
  | cons char later ih =>
      obtain ⟨first, further⟩ := List.forall_mem_cons.mp plain
      simp only [isReserved, Bool.or_eq_false_iff] at first
      obtain ⟨⟨⟨⟨⟨quote, escape⟩, -⟩, -⟩, -⟩, -⟩ := first
      rw [List.cons_append, openQuoteFrom, quote, escape, Bool.false_and, Bool.false_and,
        if_neg Bool.false_ne_true, if_neg Bool.false_ne_true, ih further, List.length_cons,
        Nat.add_right_comm, Nat.add_assoc]

/-! ## Colons that divide -/

theorem afterMappingColonFrom_eq_none (quoted : Bool) (noColon : ':' ∉ text) :
    afterMappingColonFrom quoted text = none := by
  induction text generalizing quoted with
  | nil => rfl
  | cons char later ih =>
      have other : (char == ':') = false := by
        simpa using (List.ne_of_not_mem_cons noColon).symm
      have below := fun quoted => ih quoted (List.not_mem_of_not_mem_cons noColon)
      rw [afterMappingColonFrom, other, Bool.false_and, Bool.false_and,
        if_neg Bool.false_ne_true, below, below, ite_self]

/-- A key is read up to the colon behind it. -/
theorem afterMappingColon?_append (noColon : ':' ∉ text) (noQuote : '"' ∉ text)
    (spaced : rest.head?.all (· == ' ') = true) :
    afterMappingColon? (text ++ ':' :: rest) = some rest := by
  rw [afterMappingColon?]
  induction text with
  | nil =>
      rw [List.nil_append, afterMappingColonFrom, spaced, if_neg (by decide), if_pos (by decide)]
  | cons char later ih =>
      have colon : (char == ':') = false := by
        simpa using (List.ne_of_not_mem_cons noColon).symm
      have quote : (char == '"') = false := by
        simpa using (List.ne_of_not_mem_cons noQuote).symm
      rw [List.cons_append, afterMappingColonFrom, colon, quote, if_neg Bool.false_ne_true,
        Bool.false_and, Bool.false_and, if_neg Bool.false_ne_true]
      exact ih (List.not_mem_of_not_mem_cons noColon) (List.not_mem_of_not_mem_cons noQuote)

end Blueprint.Text
