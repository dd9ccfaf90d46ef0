import Mathlib.Data.List.Induction
import Blueprint.Cursor.Style

/-!
# What scanners take for a string

Three scanners of a line know of strings. The one that looks for an open quote lets a backslash
escape a quote inside of a string. Those that look for the last colon and for open brackets do not:
they take every quote for a beginning or an end.

All three are read as statements about the places of a text and what stands before each
(`charsWhere`). The last colon and the innermost open bracket are those among the characters before
which the quotes are paired (`lastColon?_eq`, `openBracketsFrom_eq`). Quotes are paired outside of
strings and unpaired inside, as long as an even number of them is escaped
(`quotesPaired_eq`). So the scanners agree on a text in which no quote is escaped, and they differ
from the first escaped quote on up to the next one.
-/

set_option autoImplicit false

namespace Blueprint.Text

/-! ## Characters by what stands before them -/

/-- The characters, with their places, before which the text is as `chosen` says. -/
def charsWhere (chosen : List Char → Bool) (text : List Char) : List (Char × Nat) :=
  text.zipIdx.filter fun spot => chosen (text.take spot.2)

/-- The last place at which a character is listed. -/
def lastPlace? (char : Char) (spots : List (Char × Nat)) : Option Nat :=
  ((spots.filter fun spot => spot.1 == char).getLast?).map Prod.snd

/-- The brackets left open, innermost first, after one more character. -/
def withBracket (stack : List Char) (char : Char) : List Char :=
  if char == '{' || char == '[' then char :: stack
  else if char == '}' || char == ']' then stack.tail
  else stack

/-- The innermost bracket left open when the listed characters count, and no others. -/
def innermostOpen? (spots : List (Char × Nat)) : Option Char :=
  ((spots.map Prod.fst).foldl withBracket []).head?

variable {chosen other : List Char → Bool} {text lead : List Char}

theorem charsWhere_concat (chosen : List Char → Bool) (lead : List Char) (char : Char) :
    charsWhere chosen (lead ++ [char]) =
      charsWhere chosen lead ++ if chosen lead = true then [(char, lead.length)] else [] := by
  have earlier : lead.zipIdx.filter (fun spot => chosen ((lead ++ [char]).take spot.2)) =
      charsWhere chosen lead := by
    apply List.filter_congr
    intro spot member
    have inside : spot.2 < lead.length := by
      simpa using List.snd_lt_of_mem_zipIdx member
    rw [List.take_append_of_le_length (Nat.le_of_lt inside)]
  rw [charsWhere, List.zipIdx_append, List.filter_append, earlier, Nat.zero_add,
    List.zipIdx_singleton, List.filter_cons, List.filter_nil, List.take_left]

/-- What is chosen among the characters of a text depends on its beginnings only. -/
theorem charsWhere_congr (same : ∀ lead, lead <+: text → chosen lead = other lead) :
    charsWhere chosen text = charsWhere other text := by
  apply List.filter_congr
  intro spot _
  exact same _ (List.take_prefix _ _)

theorem chosen_of_lastPlace? {char : Char} {place : Nat}
    (last : lastPlace? char (charsWhere chosen text) = some place) :
    chosen (text.take place) = true := by
  obtain ⟨spot, found, rfl⟩ := Option.map_eq_some_iff.mp last
  have listed := (List.mem_filter.mp (List.mem_of_getLast? found)).1
  exact (List.mem_filter.mp listed).2

/-! ## Every quote counts -/

/-- Whether each quote of a text has a partner. -/
def quotesPaired (text : List Char) : Bool := text.count '"' % 2 == 0

theorem quotesPaired_concat (lead : List Char) (char : Char) :
    quotesPaired (lead ++ [char]) = (quotesPaired lead ^^ char == '"') := by
  rw [quotesPaired, quotesPaired, List.count_append, List.count_singleton]
  cases quote : char == '"' with
  | true => grind
  | false => grind

/-- One character is read: a quote changes sides, and a bracket counts outside of quotes. -/
theorem openBracketsFrom_cons (quoted : Bool) (stack : List Char) (char : Char)
    (rest : List Char) :
    openBracketsFrom quoted stack (char :: rest) =
      openBracketsFrom (quoted ^^ char == '"')
        (if quoted = true then stack else withBracket stack char) rest := by
  rw [openBracketsFrom]
  by_cases quote : char = '"'
  · subst quote
    cases quoted <;> rfl
  · have plain : (char == '"') = false := beq_eq_false_iff_ne.mpr quote
    rw [plain, Bool.xor_false, if_neg Bool.false_ne_true]
    cases quoted with
    | true => rfl
    | false =>
        rw [if_neg Bool.false_ne_true, if_neg Bool.false_ne_true, withBracket]
        split
        · rfl
        · split
          · rfl
          · rfl

/-- One character is read: a colon outside of quotes is the last one so far. -/
theorem lastColonFrom_cons (here : Nat) (quoted : Bool) (last : Option Nat) (char : Char)
    (rest : List Char) :
    lastColonFrom here quoted last (char :: rest) =
      lastColonFrom (here + 1) (quoted ^^ char == '"')
        (if char = ':' ∧ quoted = false then some here else last) rest := by
  rw [lastColonFrom]
  by_cases quote : char = '"'
  · subst quote
    cases quoted <;> rfl
  · have plain : (char == '"') = false := beq_eq_false_iff_ne.mpr quote
    rw [plain, Bool.xor_false, if_neg Bool.false_ne_true]
    by_cases colon : char = ':' ∧ quoted = false
    · obtain ⟨rfl, rfl⟩ := colon
      rfl
    · rw [if_neg colon, if_neg]
      simpa using colon

/-- Of a beginning, later characters see the brackets open after it and whether its quotes are
paired. -/
theorem openBracketsFrom_reading_on (lead rest : List Char) :
    openBracketsFrom false [] (lead ++ rest) =
      openBracketsFrom (!quotesPaired lead) (openBracketsFrom false [] lead) rest := by
  induction lead using List.reverseRecOn generalizing rest with
  | nil => rfl
  | append_singleton lead char ih =>
      rw [List.append_assoc, List.singleton_append, ih, ih [char], quotesPaired_concat,
        openBracketsFrom_cons, openBracketsFrom_cons, openBracketsFrom, Bool.not_xor]

theorem lastColonFrom_reading_on (lead rest : List Char) :
    lastColonFrom 0 false none (lead ++ rest) =
      lastColonFrom lead.length (!quotesPaired lead) (lastColon? lead) rest := by
  induction lead using List.reverseRecOn generalizing rest with
  | nil => rfl
  | append_singleton lead char ih =>
      rw [lastColon?, List.append_assoc, List.singleton_append, ih, ih [char], quotesPaired_concat,
        lastColonFrom_cons, lastColonFrom_cons, lastColonFrom, Bool.not_xor, List.length_append,
        List.length_singleton]

/-- The brackets left open are those of the characters before which the quotes are paired. -/
theorem openBracketsFrom_eq (text : List Char) :
    openBracketsFrom false [] text =
      ((charsWhere quotesPaired text).map Prod.fst).foldl withBracket [] := by
  induction text using List.reverseRecOn with
  | nil => rfl
  | append_singleton lead char ih =>
      rw [openBracketsFrom_reading_on, openBracketsFrom_cons, openBracketsFrom, ih,
        charsWhere_concat]
      cases quotesPaired lead with
      | true => simp
      | false => simp

theorem openBracket?_eq (text : List Char) :
    openBracket? text = innermostOpen? (charsWhere quotesPaired text) := by
  rw [openBracket?, openBracketsFrom_eq, innermostOpen?]

/-- The last colon is that of the characters before which the quotes are paired. -/
theorem lastColon?_eq (text : List Char) :
    lastColon? text = lastPlace? ':' (charsWhere quotesPaired text) := by
  induction text using List.reverseRecOn with
  | nil => rfl
  | append_singleton lead char ih =>
      rw [lastColon?, lastColonFrom_reading_on, lastColonFrom_cons, lastColonFrom, ih,
        charsWhere_concat, lastPlace?, lastPlace?, List.filter_append]
      by_cases colon : char = ':'
      · cases paired : quotesPaired lead with
        | true => simp [colon]
        | false => simp
      · cases paired : quotesPaired lead with
        | true => simp [colon]
        | false => simp [colon]

/-! ## Escaped quotes do not count -/

/-- Whether a text ends outside of strings. -/
def endsOutside (text : List Char) : Bool := (openQuote? text).isNone

theorem endsOutside_iff : endsOutside text = true ↔ openQuote? text = none :=
  Option.isNone_iff_eq_none

/-- Whether a text ends in a string behind a backslash that is not escaped itself. -/
def endsEscaping (text : List Char) : Bool :=
  !endsOutside text && (takeEndWhile (· == '\\') text).length % 2 == 1

/-- The number of quotes that are escaped. -/
def escapedQuotes (text : List Char) : Nat :=
  (charsWhere endsEscaping text).countP fun spot => spot.1 == '"'

/-- One character is read: a quote that is not escaped opens or closes a string, and a backslash in
a string escapes what comes next unless it is escaped. -/
theorem openQuoteFrom_cons (here : Nat) (opened : Option Nat) (escaped : Bool) (char : Char)
    (rest : List Char) :
    openQuoteFrom here opened escaped (char :: rest) =
      openQuoteFrom (here + 1)
        (if char = '"' ∧ escaped = false then if opened.isSome then none else some here else opened)
        (char == '\\' && opened.isSome && !escaped) rest := by
  rw [openQuoteFrom]
  by_cases backslash : char = '\\'
  · subst backslash
    cases opened <;> rfl
  · have other : (char == '\\') = false := beq_eq_false_iff_ne.mpr backslash
    rw [other, Bool.false_and, Bool.false_and, if_neg Bool.false_ne_true]
    by_cases quote : char = '"' ∧ escaped = false
    · obtain ⟨rfl, rfl⟩ := quote
      rfl
    · rw [if_neg quote, if_neg]
      simpa using quote

/-- A backslash in a string escapes what comes next unless it is escaped. -/
theorem endsEscaping_concat {lead : List Char} {char : Char}
    (same : char = '\\' → openQuote? (lead ++ [char]) = openQuote? lead) :
    endsEscaping (lead ++ [char]) =
      (char == '\\' && (openQuote? lead).isSome && !endsEscaping lead) := by
  rw [endsEscaping, takeEndWhile, List.reverse_append, List.reverse_singleton,
    List.singleton_append, List.takeWhile_cons]
  by_cases backslash : char = '\\'
  · have outside : endsOutside (lead ++ [char]) = endsOutside lead := by
      rw [endsOutside, same backslash, endsOutside]
    rw [outside, endsEscaping, endsOutside, takeEndWhile]
    cases openQuote? lead with
    | none => simp
    | some quote => grind
  · have other : (char == '\\') = false := beq_eq_false_iff_ne.mpr backslash
    simp [other]

/-- Of a beginning, later characters see the quote open after it and whether it ends escaping. -/
theorem openQuoteFrom_reading_on (lead rest : List Char) :
    openQuoteFrom 0 none false (lead ++ rest) =
      openQuoteFrom lead.length (openQuote? lead) (endsEscaping lead) rest := by
  induction lead using List.reverseRecOn generalizing rest with
  | nil => rfl
  | append_singleton lead char ih =>
      have opened : openQuote? (lead ++ [char]) =
          if char = '"' ∧ endsEscaping lead = false then
            if (openQuote? lead).isSome then none else some lead.length
          else openQuote? lead := by
        rw [openQuote?, ih, openQuoteFrom_cons, openQuoteFrom]
      have unchanged : char = '\\' → openQuote? (lead ++ [char]) = openQuote? lead := by
        rintro rfl
        rw [opened, if_neg]
        rintro ⟨quote, -⟩
        exact absurd quote (by decide)
      rw [List.append_assoc, List.singleton_append, ih, openQuoteFrom_cons, opened,
        endsEscaping_concat unchanged, List.length_append, List.length_singleton]

theorem openQuote?_concat (lead : List Char) (char : Char) :
    openQuote? (lead ++ [char]) =
      if char = '"' ∧ endsEscaping lead = false then
        if (openQuote? lead).isSome then none else some lead.length
      else openQuote? lead := by
  rw [openQuote?, openQuoteFrom_reading_on, openQuoteFrom_cons, openQuoteFrom]

theorem endsOutside_concat (lead : List Char) (char : Char) :
    endsOutside (lead ++ [char]) = (endsOutside lead ^^ (char == '"' && !endsEscaping lead)) := by
  rw [endsOutside, openQuote?_concat, endsOutside]
  by_cases quote : char = '"' ∧ endsEscaping lead = false
  · rw [if_pos quote, quote.1, quote.2]
    cases openQuote? lead <;> rfl
  · rw [if_neg quote]
    have passed : (char == '"' && !endsEscaping lead) = false := by simpa using quote
    rw [passed, Bool.xor_false]

theorem escapedQuotes_concat (lead : List Char) (char : Char) :
    escapedQuotes (lead ++ [char]) =
      escapedQuotes lead + if char == '"' && endsEscaping lead then 1 else 0 := by
  rw [escapedQuotes, charsWhere_concat, List.countP_append, escapedQuotes]
  cases endsEscaping lead with
  | true => simp [List.countP_singleton]
  | false => simp

/-- Escaped quotes open and close nothing but have their share in the pairs, so behind an odd number
of them inside and outside are exchanged. -/
theorem quotesPaired_eq (text : List Char) :
    quotesPaired text = (endsOutside text ^^ escapedQuotes text % 2 == 1) := by
  induction text using List.reverseRecOn with
  | nil => rfl
  | append_singleton lead char ih =>
      rw [quotesPaired_concat, ih, endsOutside_concat, escapedQuotes_concat]
      cases quote : char == '"' with
      | false => simp
      | true =>
          cases endsEscaping lead with
          | false => simp
          | true => grind

theorem escapedQuotes_le_of_isPrefix (begins : lead <+: text) :
    escapedQuotes lead ≤ escapedQuotes text := by
  obtain ⟨rest, rfl⟩ := begins
  induction rest using List.reverseRecOn with
  | nil => exact Nat.le_of_eq (congrArg escapedQuotes (List.append_nil lead).symm)
  | append_singleton rest char ih =>
      rw [← List.append_assoc, escapedQuotes_concat]
      omega

/-- **The scanners agree on what is inside a string, but for escaped quotes.** The last colon has no
open quote before it if and only if an even number of quotes before it is escaped. The innermost open
bracket is found by counting those brackets that stand outside of strings behind an even number of
escaped quotes, or inside behind an odd number. So if no quote is escaped, the last colon is outside
of strings and just the brackets outside of strings are counted. -/
theorem scanners_agree_but_for_escapes (text : List Char) :
    (∀ place, lastColon? text = some place →
      (openQuote? (text.take place) = none ↔ escapedQuotes (text.take place) % 2 = 0)) ∧
      openBracket? text = innermostOpen?
        (charsWhere (fun lead => endsOutside lead ^^ escapedQuotes lead % 2 == 1) text) ∧
      (escapedQuotes text = 0 →
        (∀ place, lastColon? text = some place → openQuote? (text.take place) = none) ∧
          openBracket? text = innermostOpen? (charsWhere endsOutside text)) := by
  have colon : ∀ place, lastColon? text = some place →
      (openQuote? (text.take place) = none ↔ escapedQuotes (text.take place) % 2 = 0) := by
    intro place last
    rw [lastColon?_eq] at last
    have paired := chosen_of_lastPlace? last
    rw [quotesPaired_eq] at paired
    rw [← endsOutside_iff]
    cases outside : endsOutside (text.take place) with
    | true =>
        have even : ¬escapedQuotes (text.take place) % 2 = 1 := by simpa [outside] using paired
        exact iff_of_true rfl (by omega)
    | false =>
        have odd : escapedQuotes (text.take place) % 2 = 1 := by simpa [outside] using paired
        exact iff_of_false Bool.false_ne_true (by omega)
  refine ⟨colon, ?_, fun unescaped => ?_⟩
  · rw [openBracket?_eq, ← funext quotesPaired_eq]
  · have nothing : ∀ lead, lead <+: text → escapedQuotes lead = 0 := by
      intro lead begins
      have fewer := escapedQuotes_le_of_isPrefix begins
      omega
    constructor
    · intro place last
      rw [colon place last, nothing _ (List.take_prefix _ _)]
    · rw [openBracket?_eq, charsWhere_congr]
      intro lead begins
      rw [quotesPaired_eq, nothing lead begins]
      exact Bool.xor_false _

namespace EscapedQuote

/-- An array with a string that is not closed yet, in which a quote is escaped. -/
def line : List Char := "[1, \"a \\\":\x7b".toList

/-- Behind an escaped quote a colon is found inside of the string, and a bracket that is part of the
string hides the one around it. -/
theorem scanners_disagree :
    (∃ place, lastColon? line = some place ∧ openQuote? (line.take place) ≠ none) ∧
      openBracket? line = some '{' ∧
        innermostOpen? (charsWhere endsOutside line) = some '[' :=
  ⟨⟨9, by decide, by decide⟩, by decide, by decide⟩

end EscapedQuote

end Blueprint.Text
