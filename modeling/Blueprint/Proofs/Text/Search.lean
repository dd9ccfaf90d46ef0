import Blueprint.Cursor.Line

/-!
# Searches and their results

What is found behind a place of a text is an end of the text (`afterLast?_isSuffix`,
`afterLastPair?_isSuffix`, `takeEndWhile_isSuffix`), and behind the last place nothing more is
found (`afterLast?_eq_some`). The run of kept characters at the end reaches back to one that is
not kept (`takeEndWhile_append`).

Two characters side by side are counted piece by piece when no piece begins with the second of
them (`countPairs_append`), and the last such pair is where none comes behind it
(`afterLastPair?_append`). Both serve to find where the substitution before a cursor was opened
(`substitutionText_append`).
-/

set_option autoImplicit false

namespace Blueprint.Text

/-! ## Ends of a text -/

theorem afterLast?_isSuffix {found : Char → Bool} {text after : List Char}
    (search : afterLast? found text = some after) : after <:+ text := by
  fun_induction afterLast? found text with
  | case1 => cases search
  | case2 char rest later here ih =>
      obtain rfl := Option.some.inj search
      exact (ih here).trans (List.suffix_cons char rest)
  | case3 char rest none here ih =>
      obtain rfl := Option.some.inj search
      exact List.suffix_cons char rest
  | case4 => cases search

theorem afterLast?_eq_none {found : Char → Bool} {text : List Char}
    (search : afterLast? found text = none) : ∀ char ∈ text, found char = false := by
  fun_induction afterLast? found text with
  | case1 => simp
  | case2 => cases search
  | case3 => cases search
  | case4 char rest none here ih =>
      exact List.forall_mem_cons.mpr ⟨Bool.eq_false_iff.mpr here, ih none⟩

theorem afterLast?_eq_some {found : Char → Bool} {text after : List Char}
    (search : afterLast? found text = some after) :
    ∃ front char, text = front ++ char :: after ∧ found char = true ∧
      ∀ other ∈ after, found other = false := by
  fun_induction afterLast? found text with
  | case1 => cases search
  | case2 char rest later here ih =>
      obtain rfl := Option.some.inj search
      obtain ⟨front, last, split, isLast⟩ := ih here
      exact ⟨char :: front, last, congrArg (char :: ·) split, isLast⟩
  | case3 char rest none here ih =>
      obtain rfl := Option.some.inj search
      exact ⟨[], char, rfl, here, afterLast?_eq_none none⟩
  | case4 => cases search

/-- What follows the last character found is what follows one behind which none is found. -/
theorem afterLast?_append {found : Char → Bool} {char : Char} {after : List Char}
    (here : found char = true) (free : ∀ other ∈ after, found other = false) (front : List Char) :
    afterLast? found (front ++ char :: after) = some after := by
  have nothing : afterLast? found after = none := by
    cases search : afterLast? found after with
    | none => rfl
    | some later =>
        obtain ⟨_, last, split, isLast, -⟩ := afterLast?_eq_some search
        have member : last ∈ after := by
          rw [split]
          exact List.mem_append_right _ List.mem_cons_self
        rw [free last member] at isLast
        cases isLast
  induction front with
  | nil => rw [List.nil_append, afterLast?, nothing, here, if_pos rfl]
  | cons first rest ih => rw [List.cons_append, afterLast?, ih]

theorem afterLastPair?_isSuffix {first second : Char} {text after : List Char}
    (search : afterLastPair? first second text = some after) : after <:+ text := by
  fun_induction afterLastPair? first second text with
  | case1 => cases search
  | case2 => cases search
  | case3 left right rest later here ih =>
      obtain rfl := Option.some.inj search
      exact (ih here).trans (List.suffix_cons left _)
  | case4 left right rest none here ih =>
      obtain rfl := Option.some.inj search
      exact (List.suffix_cons right rest).trans (List.suffix_cons left _)
  | case5 => cases search

theorem takeEndWhile_isSuffix (kept : Char → Bool) (text : List Char) :
    takeEndWhile kept text <:+ text := by
  rw [takeEndWhile, ← List.reverse_prefix, List.reverse_reverse]
  exact List.takeWhile_prefix kept

/-- The run at the end of a text is what is kept behind something that is not. -/
theorem takeEndWhile_append {kept : Char → Bool} {front run : List Char}
    (stops : ∀ char ∈ front.getLast?, kept char = false) (all : ∀ char ∈ run, kept char = true) :
    takeEndWhile kept (front ++ run) = run := by
  have nothing : front.reverse.takeWhile kept = [] := by
    cases back : front.reverse with
    | nil => rfl
    | cons char rest =>
        have last : front.getLast? = some char := by
          rw [← List.head?_reverse, back, List.head?_cons]
        exact List.takeWhile_cons_of_neg (by rw [stops char last]; exact Bool.false_ne_true)
  have backwards : ∀ char ∈ run.reverse, kept char = true :=
    fun char member => all char (List.mem_reverse.mp member)
  rw [takeEndWhile, List.reverse_append, List.takeWhile_append_of_pos backwards, nothing,
    List.append_nil, List.reverse_reverse]

/-- What comes before a given end is what gives the text with that end behind it. -/
theorem dropEnd?_eq_some_iff {ending text lead : List Char} :
    dropEnd? ending text = some lead ↔ text = lead ++ ending := by
  rw [dropEnd?, Option.ite_none_right_eq_some, List.isSuffixOf_iff_suffix, Option.some.injEq]
  constructor
  · rintro ⟨⟨front, rfl⟩, rfl⟩
    rw [List.length_append, Nat.add_sub_cancel, List.take_left]
  · rintro rfl
    refine ⟨List.suffix_append lead ending, ?_⟩
    rw [List.length_append, Nat.add_sub_cancel, List.take_left]

/-! ## Pairs of characters -/

variable {first second : Char}

theorem countPairs_cons_of_not_mem (char : Char) {rest : List Char} (free : second ∉ rest) :
    countPairs first second (char :: rest) = 0 := by
  induction rest generalizing char with
  | nil => rfl
  | cons next rest ih =>
      have apart : next ≠ second := fun same => free (same ▸ List.mem_cons_self)
      rw [countPairs, ih next fun later => free (List.mem_cons_of_mem _ later)]
      simp [apart]

theorem countPairs_of_not_mem {text : List Char} (free : second ∉ text) :
    countPairs first second text = 0 := by
  cases text with
  | nil => rfl
  | cons char rest =>
      exact countPairs_cons_of_not_mem char fun later => free (List.mem_cons_of_mem _ later)

/-- A pair is not split by a piece that does not begin with its second character. -/
theorem countPairs_append (left : List Char) {right : List Char}
    (starts : right.head? ≠ some second) :
    countPairs first second (left ++ right) =
      countPairs first second left + countPairs first second right := by
  induction left with
  | nil => simp [countPairs]
  | cons char rest ih =>
      cases rest with
      | nil =>
          cases right with
          | nil => rfl
          | cons next later =>
              have apart : next ≠ second := fun same => starts (same ▸ rfl)
              simp [countPairs, apart]
      | cons next later =>
          rw [List.cons_append, List.cons_append, countPairs, countPairs, ← List.cons_append, ih]
          omega

theorem afterLastPair?_eq_none {text : List Char} (free : ¬[first, second] <:+: text) :
    afterLastPair? first second text = none := by
  fun_induction afterLastPair? first second text with
  | case1 => rfl
  | case2 => rfl
  | case3 left right rest later here ih =>
      rw [ih fun further => free (further.trans (List.suffix_cons left _).isInfix)] at here
      cases here
  | case4 left right rest none here ih =>
      rw [Bool.and_eq_true, beq_iff_eq, beq_iff_eq] at here
      obtain ⟨rfl, rfl⟩ := here
      exact absurd (List.prefix_append [left, right] rest).isInfix free
  | case5 => rfl

/-- The last pair is the one behind which there is no other. -/
theorem afterLastPair?_append (left : List Char) {right : List Char}
    (free : ¬[first, second] <:+: second :: right) :
    afterLastPair? first second (left ++ first :: second :: right) = some right := by
  induction left with
  | nil =>
      rw [List.nil_append, afterLastPair?, afterLastPair?_eq_none free]
      simp
  | cons char rest ih =>
      obtain ⟨next, later, split⟩ : ∃ next later,
          rest ++ first :: second :: right = next :: later := by
        cases rest with
        | nil => exact ⟨_, _, rfl⟩
        | cons next rest => exact ⟨_, _, rfl⟩
      rw [split] at ih
      rw [List.cons_append, split, afterLastPair?, ih]

/-- Two different characters do not stand side by side behind the second of them unless they do so
further on. -/
theorem not_infix_cons {right : List Char} (apart : first ≠ second)
    (free : ¬[first, second] <:+: right) : ¬[first, second] <:+: second :: right := by
  rw [List.infix_cons_iff, not_or]
  refine ⟨fun here => apart ?_, free⟩
  exact (List.cons_prefix_cons.mp here).1

theorem not_infix_of_not_mem {text : List Char} (free : second ∉ text) :
    ¬[first, second] <:+: text :=
  fun pair => free (pair.subset (List.mem_cons_of_mem _ List.mem_cons_self))

/-! ## Where a substitution is opened -/

variable {lead opened : List Char}

/-- A text ends in a substitution when the last opening is not closed and all before it are. -/
theorem inSubstitution_append (closed : lead.count '}' = countPairs '$' '{' lead)
    (noOpening : '{' ∉ opened) (noClosing : '}' ∉ opened) :
    inSubstitution (lead ++ '$' :: '{' :: opened) = true := by
  have closings : (lead ++ '$' :: '{' :: opened).count '}' = lead.count '}' := by
    rw [List.count_append, List.count_cons_of_ne (by decide), List.count_cons_of_ne (by decide),
      List.count_eq_zero.mpr noClosing, Nat.add_zero]
  have openings : countPairs '$' '{' (lead ++ '$' :: '{' :: opened) =
      countPairs '$' '{' lead + 1 := by
    rw [countPairs_append lead (by simp), countPairs, countPairs_cons_of_not_mem '{' noOpening]
    simp
  rw [inSubstitution, closings, openings, closed]
  exact decide_eq_true (Nat.lt_succ_self _)

/-- What has been typed of a substitution is what follows its opening. -/
theorem substitutionText_append (closed : lead.count '}' = countPairs '$' '{' lead)
    (noOpening : '{' ∉ opened) (noClosing : '}' ∉ opened) :
    substitutionText (lead ++ '$' :: '{' :: opened) = opened := by
  rw [substitutionText, if_pos (inSubstitution_append closed noOpening noClosing),
    afterLastPair?_append lead (not_infix_cons (by decide) (not_infix_of_not_mem noOpening)),
    Option.getD_some]

end Blueprint.Text
