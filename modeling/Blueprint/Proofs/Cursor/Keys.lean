import Blueprint.Proofs.Cursor.Extraction

/-!
# The key before a colon

Right after a colon, the text before the cursor is asked whether it ends with a given key. It does
so in three ways (`EndsInKey`): the key is all of the last word, it is what follows a dash in the
last word, or it stands in quotes.

The second way is there because a dash is two things. It introduces an item of a sequence, so a key
may follow it, and it is a character of words. A key that is neither quoted nor behind a dash is the
whole word before the colon (`endsWithKey_matches_words`).
-/

set_option autoImplicit false

namespace Blueprint.Text

open CursorLine (IsWordEnd isWordEnd_takeEndWhile)

/-! ## The final colon -/

/-- The final colon is the one behind which there are only blanks. -/
theorem dropColon_eq_some_iff {text lead : List Char} :
    dropEnd? [':'] (trimEnd text) = some lead ↔
      ∃ gap, text = lead ++ ':' :: gap ∧ allBlank gap = true := by
  rw [dropEnd?_eq_some_iff]
  constructor
  · intro trimmed
    obtain ⟨gap, blank, split⟩ := exists_eq_trimEnd_append text
    refine ⟨gap, ?_, blank⟩
    rw [split, trimmed, List.append_assoc, List.singleton_append]
  · rintro ⟨gap, rfl, blank⟩
    have nothing : trimEnd gap = [] := trimEnd_append_of_allBlank blank []
    rw [trimEnd_append_cons (by decide), nothing]

/-- There is one final colon only. -/
theorem eq_of_append_colon {lead other gap otherGap : List Char}
    (blank : allBlank gap = true) (otherBlank : allBlank otherGap = true)
    (same : lead ++ ':' :: gap = other ++ ':' :: otherGap) : lead = other := by
  have here : dropEnd? [':'] (trimEnd (lead ++ ':' :: gap)) = some lead :=
    dropColon_eq_some_iff.mpr ⟨gap, rfl, blank⟩
  rw [dropColon_eq_some_iff.mpr ⟨otherGap, same, otherBlank⟩] at here
  exact (Option.some.inj here).symm

/-- A text ends with a key when the key, or the key in quotes, stands before the final colon where a
key may begin. -/
theorem endsWithKey_iff {text : List Char} {key : String} :
    endsWithKey text key = true ↔
      ∃ lead gap, text = lead ++ ':' :: gap ∧ allBlank gap = true ∧
        ∃ front, allowsKey front = true ∧
          (lead = front ++ key.toList ∨ lead = front ++ '"' :: (key.toList ++ ['"'])) := by
  have begins : ∀ ending lead, (dropEnd? ending lead).any allowsKey = true ↔
      ∃ front, allowsKey front = true ∧ lead = front ++ ending := by
    intro ending lead
    simp only [Option.any_eq_true, dropEnd?_eq_some_iff, and_comm]
  rw [endsWithKey]
  cases colon : dropEnd? [':'] (trimEnd text) with
  | none =>
      refine iff_of_false Bool.false_ne_true ?_
      rintro ⟨lead, gap, split, blank, -⟩
      rw [dropColon_eq_some_iff.mpr ⟨gap, split, blank⟩] at colon
      cases colon
  | some lead =>
      obtain ⟨gap, rfl, blank⟩ := dropColon_eq_some_iff.mp colon
      simp only [Bool.or_eq_true, begins, ← exists_or, ← and_or_left, List.cons_append,
        List.nil_append]
      constructor
      · exact fun found => ⟨lead, gap, rfl, blank, found⟩
      · rintro ⟨other, otherGap, same, otherBlank, found⟩
        rwa [eq_of_append_colon blank otherBlank same]

/-! ## Words and keys -/

section Words

variable {front key : List Char}

/-- A key may begin behind a character of words only if that is a dash. -/
theorem last_of_allowsKey (begins : allowsKey front = true) :
    (∀ char ∈ front.getLast?, isWordChar char = false) ∨ front.getLast? = some '-' := by
  rw [allowsKey] at begins
  cases last : front.getLast? with
  | none =>
      left
      intro char member
      cases member
  | some char =>
      simp only [last, Bool.or_eq_true, beq_iff_eq] at begins
      rcases begins with ((blank | rfl) | rfl) | rfl
      · left
        rintro _ ⟨⟩
        cases word : isWordChar char with
        | false => rfl
        | true =>
            rw [isBlank_of_isWordChar word] at blank
            cases blank
      · left
        rintro _ ⟨⟩
        decide
      · left
        rintro _ ⟨⟩
        decide
      · exact .inr rfl

theorem cons_suffix_append_iff {char : Char} :
    char :: key <:+ front ++ key ↔ front.getLast? = some char := by
  rw [← List.singleton_append, List.suffix_append_inj_of_length_eq rfl, and_iff_left rfl,
    List.singleton_suffix_iff_getLast?_eq_some]

/-- Characters of words are the whole word when no such character comes before them. -/
theorem isWordEnd_append_iff (isWord : ∀ char ∈ key, isWordChar char = true) :
    IsWordEnd key (front ++ key) ↔ ∀ char ∈ front.getLast?, isWordChar char = false := by
  constructor
  · intro whole char last
    rw [← Bool.not_eq_true]
    intro word
    -- with the character before it, the key would be a longer run than the longest
    have longer : (char :: key).length ≤ key.length :=
      whole.longest (char :: key) (cons_suffix_append_iff.mpr last)
        (List.forall_mem_cons.mpr ⟨word, isWord⟩)
    exact Nat.not_succ_le_self _ longer
  · intro apart
    have word := isWordEnd_takeEndWhile (front ++ key)
    rwa [takeEndWhile_append apart isWord] at word

/-- Where a key of word characters may begin, it is the whole word if no dash comes before it. -/
theorem isWordEnd_iff_of_allowsKey (isWord : ∀ char ∈ key, isWordChar char = true)
    (begins : allowsKey front = true) :
    IsWordEnd key (front ++ key) ↔ ¬ '-' :: key <:+ front ++ key := by
  rw [isWordEnd_append_iff isWord, cons_suffix_append_iff]
  constructor
  · intro apart dash
    exact absurd (apart '-' dash) (by decide)
  · intro noDash
    exact (last_of_allowsKey begins).resolve_right noDash

/-- The ways in which a text ends with a key. -/
inductive EndsInKey (key : List Char) : List Char → Prop where
  /-- The key is all of the last word. -/
  | whole {front : List Char} (begins : allowsKey front = true)
      (word : IsWordEnd key (front ++ key)) : EndsInKey key (front ++ key)
  /-- The key is what follows a dash in the last word. -/
  | behindDash {front : List Char} : EndsInKey key (front ++ '-' :: key)
  | quoted {front : List Char} (begins : allowsKey front = true) :
      EndsInKey key (front ++ '"' :: (key ++ ['"']))

theorem endsInKey_iff (isWord : ∀ char ∈ key, isWordChar char = true) {lead : List Char} :
    EndsInKey key lead ↔ ∃ front, allowsKey front = true ∧
      (lead = front ++ key ∨ lead = front ++ '"' :: (key ++ ['"'])) := by
  constructor
  · rintro (⟨begins, -⟩ | _ | ⟨begins⟩)
    case whole front => exact ⟨front, begins, .inl rfl⟩
    -- the dash counts as what the key follows, although the word goes on before it
    case behindDash front =>
      refine ⟨front ++ ['-'], ?_, .inl (by rw [List.append_assoc, List.singleton_append])⟩
      rw [allowsKey, List.getLast?_concat]
      decide
    case quoted front => exact ⟨front, begins, .inr rfl⟩
  · rintro ⟨front, begins, rfl | rfl⟩
    · rcases last_of_allowsKey begins with apart | dash
      · exact .whole begins ((isWordEnd_append_iff isWord).mpr apart)
      · obtain ⟨rest, rfl⟩ := List.getLast?_eq_some_iff.mp dash
        rw [List.append_assoc, List.singleton_append]
        exact .behindDash
    · exact .quoted begins

end Words

/-! ## Keys that are matched -/

/-- **A key is matched as a whole word, but for dashes.** A text ends with a key of word characters
if and only if, before its final colon, the key is the whole last word where a key may begin, or
follows a dash there, or stands in quotes. So if the character before the final colon is no quote,
the key is the longest run of word characters before the colon unless a dash comes right before
it. -/
theorem endsWithKey_matches_words {key : String}
    (isWord : ∀ char ∈ key.toList, isWordChar char = true) (text : List Char) :
    (endsWithKey text key = true ↔ ∃ lead gap, text = lead ++ ':' :: gap ∧ allBlank gap = true ∧
      EndsInKey key.toList lead) ∧
    ∀ lead gap, text = lead ++ ':' :: gap → allBlank gap = true → endsWithKey text key = true →
      lead.getLast? ≠ some '"' →
        (IsWordEnd key.toList lead ↔ ¬ '-' :: key.toList <:+ lead) := by
  constructor
  · simp only [endsInKey_iff isWord]
    exact endsWithKey_iff
  · intro lead gap split blank ends bare
    obtain ⟨other, otherGap, otherSplit, otherBlank, front, begins, spelled⟩ :=
      endsWithKey_iff.mp ends
    obtain rfl := eq_of_append_colon otherBlank blank (otherSplit.symm.trans split)
    rcases spelled with rfl | rfl
    · exact isWordEnd_iff_of_allowsKey isWord begins
    · refine absurd ?_ bare
      rw [← List.cons_append, ← List.append_assoc, List.getLast?_concat]

/-- Dashes elsewhere on the line do not matter. -/
theorem endsWithKey_matches_words_item :
    let lead := "- sub-type: 1, type".toList
    (∀ char ∈ "type".toList, isWordChar char = true) ∧
      endsWithKey (lead ++ ":\t ".toList) "type" = true ∧ lead.getLast? ≠ some '"' ∧
        IsWordEnd "type".toList lead := by
  intro lead
  have isWord : ∀ char ∈ "type".toList, isWordChar char = true :=
    List.all_eq_true.mp (by decide)
  have ends : endsWithKey (lead ++ ":\t ".toList) "type" = true := by decide
  have bare : lead.getLast? ≠ some '"' := by decide
  have tells := (endsWithKey_matches_words isWord (lead ++ ":\t ".toList)).2 lead "\t ".toList rfl
    (by decide) ends bare
  exact ⟨isWord, ends, bare, tells.mpr (by decide)⟩

namespace DashedKey

/-- An entry whose key has another key behind a dash. -/
def lead : List Char := "    sub-type".toList

/-- The key of the entry is another one than the one that is matched. -/
theorem endsWithKey_part_of_word :
    (∀ char ∈ "type".toList, isWordChar char = true) ∧ endsWithKey (lead ++ [':']) "type" = true ∧
      lead.getLast? ≠ some '"' ∧ ¬IsWordEnd "type".toList lead ∧
        IsWordEnd "sub-type".toList lead := by
  have run : takeEndWhile isWordChar lead = "sub-type".toList := by decide
  have word := isWordEnd_takeEndWhile lead
  rw [run] at word
  refine ⟨List.all_eq_true.mp (by decide), by decide, by decide, ?_, word⟩
  intro part
  exact absurd (part.longest "sub-type".toList word.isEnd word.isWord) (by decide)

end DashedKey

end Blueprint.Text
