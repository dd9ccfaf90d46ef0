import Blueprint.Proofs.Completion.Written

/-!
# Tentative resources

A path that begins with no namespace may begin with the name of a resource. Such a name is offered
tentatively, and it begins as an identifier does. It is an identifier, made of the characters of
names, if the expression that was found opens every bracket that it closes (`Text.unopened`) and
does not begin with a bracket (`Completion.tentative_of_unopened`).

Found from its end, an expression may break off inside a bracket, at a character that it cannot
hold. Then a part of a key stands where a name is expected, and this part is offered as it is, with
its quote and its bracket (`Completion.tentative_part_of_key`).
-/

set_option autoImplicit false

namespace Blueprint

/-! ## Brackets that are not opened -/

namespace Text

/-- How many brackets are closed and not yet opened once a character is read from the end. -/
def closedBefore (char : Char) (depth : Nat) : Nat :=
  if char == ']' then depth + 1 else if char == '[' then depth - 1 else depth

/-- How many brackets a text closes without opening them. -/
def unopened (text : List Char) : Nat := text.foldr closedBefore 0

theorem unopened_cons (char : Char) (rest : List Char) :
    unopened (char :: rest) = closedBefore char (unopened rest) := rfl

theorem le_unopened_append {front : List Char} (noBracket : '[' ∉ front) (back : List Char) :
    unopened back ≤ unopened (front ++ back) := by
  induction front with
  | nil => exact Nat.le_refl _
  | cons char rest ih =>
      have other : (char == '[') = false := by
        simpa using (List.ne_of_not_mem_cons noBracket).symm
      refine Nat.le_trans (ih (List.not_mem_of_not_mem_cons noBracket)) ?_
      rw [List.cons_append, unopened_cons, closedBefore, other]
      split <;> simp

/-- Reading from the end goes on over brackets and over what belongs to the expression. -/
theorem expressionFromEnd_cons (depth : Nat) (char : Char) (rest : List Char) :
    expressionFromEnd depth (char :: rest) =
      if char == ']' || char == '[' || belongs depth char then
        char :: expressionFromEnd (closedBefore char depth) rest
      else [] := by
  rw [expressionFromEnd, closedBefore, belongs]
  cases char == ']' with
  | true => rfl
  | false =>
      cases char == '[' with
      | true => rfl
      | false =>
          cases char.isAlphanum || char == '.' || char == '_' || char == '-' with
          | true => rfl
          | false => rfl

/-- Each character of an expression is a bracket or belongs to it at the depth where it stands. -/
theorem belongs_of_expressionFromEnd {text behind before : List Char} {char : Char}
    (depth : Nat) (found : expressionFromEnd depth text = behind ++ char :: before) :
    char = ']' ∨ char = '[' ∨
      belongs (behind.foldl (fun depth other => closedBefore other depth) depth) char = true := by
  induction text generalizing depth behind with
  | nil => cases behind <;> cases found
  | cons first rest ih =>
      rw [expressionFromEnd_cons] at found
      split at found
      · rename_i goesOn
        cases behind with
        | nil =>
            cases found
            simpa [or_assoc] using goesOn
        | cons other later =>
            obtain ⟨same, deeper⟩ := List.cons.inj found
            subst same
            rw [List.foldl_cons]
            exact ih _ deeper
      · cases behind <;> cases found

/-- The same, read from the start: the depth is what the rest of the expression leaves unopened. -/
theorem belongs_of_trailingExpression {text front back : List Char} {char : Char}
    (found : trailingExpression text = front ++ char :: back) :
    char = ']' ∨ char = '[' ∨ belongs (unopened back) char = true := by
  have backwards : expressionFromEnd 0 text.reverse = back.reverse ++ char :: front.reverse := by
    rw [← List.reverse_reverse (expressionFromEnd 0 text.reverse)]
    exact (congrArg List.reverse found).trans (by simp)
  have known := belongs_of_expressionFromEnd 0 backwards
  rwa [List.foldl_reverse] at known

/-- Where nothing is left unopened, only the characters of names stand before the first bracket,
dots apart. -/
theorem isNameChar_of_unopened {text front name back : List Char}
    (found : trailingExpression text = front ++ name ++ back)
    (opened : unopened (trailingExpression text) = 0)
    (noBracket : '[' ∉ front ++ name) (noDot : '.' ∉ name) :
    ∀ char ∈ name, isNameChar char = true := by
  intro char member
  obtain ⟨before, after, rfl⟩ := List.append_of_mem member
  have split : trailingExpression text = (front ++ before) ++ char :: (after ++ back) := by
    rw [found]
    simp
  have free : '[' ∉ front ++ before := by
    simp only [List.mem_append, not_or] at noBracket ⊢
    exact ⟨noBracket.1, noBracket.2.1⟩
  have here : unopened (char :: (after ++ back)) = 0 := by
    have least := le_unopened_append free (char :: (after ++ back))
    rw [← split, opened] at least
    exact Nat.le_zero.mp least
  have isOpening : char ≠ '[' := by
    rintro rfl
    simp at noBracket
  have isClosing : char ≠ ']' := by
    rintro rfl
    cases here
  have isDot : char ≠ '.' := by
    rintro rfl
    simp at noDot
  rw [unopened_cons, closedBefore, if_neg (by simpa using isClosing),
    if_neg (by simpa using isOpening)] at here
  rcases belongs_of_trailingExpression split with closing | opening | inside
  · exact absurd closing isClosing
  · exact absurd opening isOpening
  · rw [here] at inside
    simpa [belongs, isNameChar, isDot, or_assoc] using inside

end Text

/-! ## The first segment -/

namespace Expression

theorem isPrefix_segments (text : List Char) :
    (∀ segments name trailing, segments <+: (read segments name trailing text).segments) ∧
    ∀ segments item, segments <+: (readBracket segments item text).segments := by
  have pushed : ∀ segments name, segments <+: pushName segments name := fun segments name => by
    rw [pushName]
    split
    · exact List.prefix_rfl
    · exact List.prefix_append _ _
  induction text with
  | nil => exact ⟨fun segments name _ => pushed segments name, fun _ _ => List.prefix_rfl⟩
  | cons char rest ih =>
      obtain ⟨outside, inside⟩ := ih
      constructor
      · intro segments name trailing
        rw [read]
        split
        · exact (pushed segments name).trans (outside _ _ _)
        · split
          · exact (pushed segments name).trans (inside _ _)
          · exact outside _ _ _
      · intro segments item
        rw [readBracket]
        split
        · exact (List.prefix_append _ _).trans (outside _ _ _)
        · exact inside _ _

theorem eq_of_isPrefix {first other : String} {rest segments : List String}
    (starts : [first] <+: segments) (is : segments = other :: rest) : first = other := by
  obtain ⟨later, rfl⟩ := starts
  exact (List.cons.inj is).1

/-- The first segment of a bracket is the item it holds. -/
theorem exists_item_of_readBracket {text held : List Char} {first : String} {rest : List String}
    (found : (readBracket [] held text).segments = first :: rest) :
    ∃ item after, text = item ++ ']' :: after ∧
      first = String.ofList (Text.trimQuotes (Text.trim (held ++ item))) := by
  induction text generalizing held with
  | nil => cases found
  | cons char later ih =>
      rw [readBracket] at found
      split at found
      · rename_i closing
        have same := eq_of_isPrefix ((isPrefix_segments later).1 _ [] .closed) found
        exact ⟨[], later, by simpa using closing, by rw [← same, List.append_nil]⟩
      · obtain ⟨item, after, split, is⟩ := ih found
        exact ⟨char :: item, after, by rw [split, List.cons_append],
          by rw [is, List.append_assoc, List.singleton_append]⟩

/-- A name that has been begun is the first segment, up to the next dot or bracket. -/
theorem exists_name_of_read {text held : List Char} {first : String} {rest : List String}
    (begun : held ≠ []) (trailing : Trailing)
    (found : (read [] held trailing text).segments = first :: rest) :
    ∃ name after, text = name ++ after ∧ '.' ∉ name ∧ '[' ∉ name ∧
      first = String.ofList (held ++ name) := by
  have pushed := pushName_of_ne_nil [] begun
  induction text generalizing held trailing with
  | nil =>
      rw [read, pushed] at found
      exact ⟨[], [], rfl, by simp, by simp, by rw [List.append_nil, (List.cons.inj found).1]⟩
  | cons char later ih =>
      rw [read, pushed] at found
      split at found
      · have same := eq_of_isPrefix ((isPrefix_segments later).1 _ [] .dot) found
        exact ⟨[], char :: later, rfl, by simp, by simp, by rw [← same, List.append_nil]⟩
      · rename_i noDot
        split at found
        · have same := eq_of_isPrefix ((isPrefix_segments later).2 _ []) found
          exact ⟨[], char :: later, rfl, by simp, by simp, by rw [← same, List.append_nil]⟩
        · rename_i noBracket
          have longer : held ++ [char] ≠ [] := by simp
          obtain ⟨name, after, split, freeOfDot, freeOfBracket, is⟩ :=
            ih longer .identifier found (pushName_of_ne_nil [] longer)
          rw [beq_iff_eq] at noDot noBracket
          refine ⟨char :: name, after, by rw [split, List.cons_append], ?_, ?_, ?_⟩
          · exact List.not_mem_cons_of_ne_of_not_mem (Ne.symm noDot) freeOfDot
          · exact List.not_mem_cons_of_ne_of_not_mem (Ne.symm noBracket) freeOfBracket
          · rw [is, List.append_assoc, List.singleton_append]

/-- Dots apart, the first segment is the name that an expression begins with, or the item of the
bracket that it begins with. -/
theorem begins_of_read {text : List Char} {first : String} {rest : List String}
    (trailing : Trailing) (found : (read [] [] trailing text).segments = first :: rest) :
    ∃ dots begun, text = dots ++ begun ∧ (∀ char ∈ dots, char = '.') ∧
      ((∃ name after, begun = name ++ after ∧ '.' ∉ name ∧ '[' ∉ name ∧
        first = String.ofList name) ∨
      ∃ item after, begun = '[' :: (item ++ ']' :: after) ∧
        first = String.ofList (Text.trimQuotes (Text.trim item))) := by
  induction text generalizing trailing with
  | nil => cases found
  | cons char later ih =>
      rw [read] at found
      split at found
      · rename_i dot
        obtain ⟨dots, begun, split, allDots, begins⟩ := ih .dot found
        refine ⟨char :: dots, begun, by rw [split, List.cons_append], ?_, begins⟩
        exact List.forall_mem_cons.mpr ⟨beq_iff_eq.mp dot, allDots⟩
      · rename_i noDot
        split at found
        · rename_i opening
          obtain ⟨item, after, split, is⟩ := exists_item_of_readBracket found
          refine ⟨[], char :: later, rfl, by simp, .inr ⟨item, after, ?_, is⟩⟩
          rw [split, beq_iff_eq.mp opening]
        · rename_i noBracket
          obtain ⟨name, after, split, freeOfDot, freeOfBracket, is⟩ :=
            exists_name_of_read (List.cons_ne_nil char []) .identifier found
          rw [beq_iff_eq] at noDot noBracket
          refine ⟨[], char :: later, rfl, by simp, .inl ⟨char :: name, after, ?_, ?_, ?_, is⟩⟩
          · rw [split, List.cons_append]
          · exact List.not_mem_cons_of_ne_of_not_mem (Ne.symm noDot) freeOfDot
          · exact List.not_mem_cons_of_ne_of_not_mem (Ne.symm noBracket) freeOfBracket

end Expression

/-! ## What is offered -/

namespace Completion

theorem kind_withName (kind : CompletionKind) (name : Option String) :
    (withName kind name).kind = kind := by
  unfold withName
  split <;> rfl

/-- A tentative resource is the first segment of the expression, and begins like an identifier. -/
theorem tentative_of_ofExpression {expression : Expression}
    (tentative : (ofExpression expression).kind = .stringSubPotentialResourceProperty) :
    ∃ name rest, expression.segments = name :: rest ∧ startsIdentifier name = true ∧
      (ofExpression expression).potentialResourceName = some name := by
  unfold ofExpression at tentative ⊢
  cases segments : expression.segments with
  | nil =>
      rw [segments] at tentative
      cases tentative
  | cons name rest =>
      rw [segments] at tentative
      dsimp only at tentative ⊢
      cases space : Namespace.ofName? name with
      | some space =>
          simp only [space, kind_withName] at tentative
          exact absurd tentative (isSubstitution_kindIn _ _ _).2
      | none =>
          simp only [space] at tentative ⊢
          rw [ofFreeName] at tentative ⊢
          split at tentative
          · rename_i offered
            rw [if_pos offered]
            exact ⟨name, rest, rfl, (Bool.and_eq_true_iff.mp offered).2, rfl⟩
          · split at tentative <;> cases tentative

/-- **What is offered as a tentative resource.** The name begins with a letter or an underscore. If
the expression opens every bracket that it closes, the name is an identifier or else the item of the
bracket that the expression begins with. -/
theorem tentative_of_unopened (text : List Char)
    (tentative : (ofReference text).kind = .stringSubPotentialResourceProperty) :
    ∃ name, (ofReference text).potentialResourceName = some name ∧ startsIdentifier name = true ∧
      (Text.unopened (Text.trailingExpression text) = 0 →
        (∀ char ∈ name.toList, isNameChar char = true) ∨
        ∃ dots item after, Text.trailingExpression text = dots ++ '[' :: (item ++ ']' :: after) ∧
          (∀ char ∈ dots, char = '.') ∧
          name = String.ofList (Text.trimQuotes (Text.trim item))) := by
  obtain ⟨name, rest, segments, starts, offered⟩ := tentative_of_ofExpression tentative
  refine ⟨name, offered, starts, fun opened => ?_⟩
  obtain ⟨dots, begun, split, allDots, begins⟩ := Expression.begins_of_read .identifier segments
  rcases begins with ⟨plain, after, rfl, noDot, noBracket, rfl⟩ | ⟨item, after, rfl, is⟩
  · left
    have noBracketAtAll : '[' ∉ dots ++ plain := fun member => by
      rcases List.mem_append.mp member with front | later
      · cases allDots _ front
      · exact noBracket later
    rw [String.toList_ofList]
    exact Text.isNameChar_of_unopened (by rw [split, List.append_assoc]) opened noBracketAtAll noDot
  · exact .inr ⟨dots, item, after, split, allDots, is⟩

theorem tentative_of_unopened_call :
    let text := "trim(myResource.spec[\"a b\"].".toList
    (ofReference text).kind = .stringSubPotentialResourceProperty ∧
    Text.unopened (Text.trailingExpression text) = 0 ∧
    ∃ name, (ofReference text).potentialResourceName = some name ∧
      startsIdentifier name = true ∧ ∀ char ∈ name.toList, isNameChar char = true := by
  intro text
  have tentative : (ofReference text).kind = .stringSubPotentialResourceProperty := by decide
  have opened : Text.unopened (Text.trailingExpression text) = 0 := by decide
  obtain ⟨name, offered, starts, begins⟩ := tentative_of_unopened text tentative
  refine ⟨tentative, opened, name, offered, starts, (begins opened).resolve_right ?_⟩
  -- The expression begins with a letter, neither with a dot nor with a bracket.
  rintro ⟨dots, item, after, split, allDots, -⟩
  have letter : (Text.trailingExpression text).head? = some 'm' := by decide
  rw [split] at letter
  cases dots with
  | nil => simp at letter
  | cons dot others => simp [allDots dot List.mem_cons_self] at letter

/-- A part of a key is offered as a resource, with the quote and the bracket behind it. -/
theorem tentative_part_of_key :
    ∃ name, ofReference "resources[\"a/b\"].".toList =
        { kind := .stringSubPotentialResourceProperty, potentialResourceName := some name } ∧
      ¬∀ char ∈ name.toList, isNameChar char = true :=
  ⟨"b\"]", by decide, by simp [isNameChar]⟩

end Completion

end Blueprint
