import Blueprint.Proofs.Completion.Coherence
import Blueprint.Proofs.Text.Blank

/-!
# Written references

A reference is written with a namespace, items after it and, where it breaks off, a dot or an
opening bracket (`WrittenReference`). Items come in three forms: a name after a dot, a key in quotes
and brackets, an index in brackets. Before the reference other text of the same substitution may
stand, and before the substitution any text with closed substitutions.

Such a text is classified as what it spells (`Completion.ofContext_of_written`). Four facts are put
together: braces are counted right past everything that is closed (`Passage.count_text`), the
expression is found whole from its end (`Text.trailingExpression_append`), it is taken apart into
its items (`Expression.read_items`), and the number of items and the break decide.
-/

set_option autoImplicit false

namespace Blueprint

/-! ## What is written -/

/-- A text without braces. -/
structure BraceFree where
  chars : List Char
  noOpening : '{' ∉ chars
  noClosing : '}' ∉ chars

/-- A piece of the text before a substitution. -/
inductive Passage where
  | plain (text : BraceFree)
  /-- A substitution that has been closed. -/
  | closed (inner : BraceFree)

/-- A passage as it is written. -/
def Passage.text : Passage → List Char
  | plain text => text.chars
  | closed inner => '$' :: '{' :: (inner.chars ++ ['}'])

/-- The characters that the names of a reference are made of. -/
def isNameChar (char : Char) : Bool := char.isAlphanum || char == '_' || char == '-'

/-- How an item of a reference is written. -/
inductive ItemForm where
  /-- After a dot. -/
  | name
  /-- In quotes and brackets. -/
  | key
  /-- In brackets. -/
  | index

namespace ItemForm

/-- The characters that an item may have. -/
def allows : ItemForm → Char → Bool
  | name, char => isNameChar char
  | key, char => isNameChar char || char == '.' || char == ' '
  | index, char => char.isDigit

/-- An item as it is written. -/
def write : ItemForm → List Char → List Char
  | name, content => '.' :: content
  | key, content => '[' :: '"' :: (content ++ ['"', ']'])
  | index, content => '[' :: (content ++ [']'])

end ItemForm

/-- An item of a reference. -/
structure WrittenItem where
  form : ItemForm
  content : List Char
  nonempty : content ≠ []
  plain : ∀ char ∈ content, form.allows char = true

/-- An item as it is written. -/
def WrittenItem.text (item : WrittenItem) : List Char := item.form.write item.content

/-- What an item names. -/
def WrittenItem.spelled (item : WrittenItem) : String := String.ofList item.content

/-- How a reference breaks off before its next item. -/
inductive Opener where
  | dot
  | bracket

namespace Opener

/-- The character a reference breaks off with. -/
def char : Opener → Char
  | dot => '.'
  | bracket => '['

/-- How an expression breaks off. -/
def trailing : Opener → Trailing
  | dot => .dot
  | bracket => .bracket

end Opener

/-- Whether a character is no part of an expression outside of brackets. -/
def Text.endsExpression (char : Char) : Bool :=
  !(isNameChar char || char == '.' || char == '[' || char == ']')

/-- A reference being typed, with the line it stands on. -/
structure WrittenReference where
  /-- What stands before the substitution. -/
  head : List Passage
  /-- What stands before the reference in its substitution. -/
  lead : BraceFree
  /-- The reference does not go on from the text before it. -/
  apart : ∀ char ∈ lead.chars.getLast?, Text.endsExpression char = true
  space : Namespace
  items : List WrittenItem
  opener : Opener

namespace WrittenReference

/-- The namespace and the items as they are written. -/
def path (reference : WrittenReference) : List Char :=
  reference.space.name.toList ++ reference.items.flatMap WrittenItem.text

/-- The line up to the cursor. -/
def text (reference : WrittenReference) : List Char :=
  reference.head.flatMap Passage.text ++
    '$' :: '{' :: (reference.lead.chars ++ reference.path ++ [reference.opener.char])

/-- What is offered after a reference. Without an item it is the elements of the namespace; after
one it is what belongs to the element that the first item names. -/
def completion (reference : WrittenReference) : Completion :=
  match reference.space, reference.items with
  | .resources, [] => { kind := .stringSubResourceRef }
  | .vars, [] => { kind := .stringSubVariableRef }
  | .values, [] => { kind := .stringSubValueRef }
  | .dataSources, [] => { kind := .stringSubDataSourceRef }
  | .children, [] => { kind := .stringSubChildRef }
  | .elem, _ => { kind := .stringSubElemRef }
  | .resources, item :: _ =>
    { kind := .stringSubResourceProperty, resourceName := some item.spelled }
  | .vars, _ :: _ => { kind := .stringSubPartialPath }
  | .values, item :: _ => { kind := .stringSubValueProperty, fieldName := some item.spelled }
  | .dataSources, item :: _ =>
    { kind := .stringSubDataSourceProperty, dataSourceName := some item.spelled }
  | .children, item :: _ => { kind := .stringSubChildProperty, fieldName := some item.spelled }

end WrittenReference

/-! ## Braces before the reference -/

namespace Passage

open Text

/-- No passage goes on from a dollar sign before it. -/
theorem head?_text (passage : Passage) : passage.text.head? ≠ some '{' := by
  cases passage with
  | plain text => exact fun first => text.noOpening (List.mem_of_head? first)
  | closed inner => simp [text]

theorem head?_flatMap_text (passages : List Passage) :
    (passages.flatMap text).head? ≠ some '{' := by
  induction passages with
  | nil => simp
  | cons passage rest ih =>
      rw [List.flatMap_cons, List.head?_append]
      cases first : passage.text.head? with
      | none => simpa using ih
      | some char => simpa [first] using passage.head?_text

/-- A passage closes what it opens. -/
theorem count_text (passage : Passage) :
    passage.text.count '}' = countPairs '$' '{' passage.text := by
  cases passage with
  | plain content =>
      rw [text, List.count_eq_zero.mpr content.noClosing, countPairs_of_not_mem content.noOpening]
  | closed inner =>
      have free : '{' ∉ inner.chars ++ ['}'] := by simp [inner.noOpening]
      rw [text, countPairs, countPairs_cons_of_not_mem '{' free]
      simp [List.count_eq_zero.mpr inner.noClosing]

theorem count_flatMap_text (passages : List Passage) :
    (passages.flatMap text).count '}' = countPairs '$' '{' (passages.flatMap text) := by
  induction passages with
  | nil => rfl
  | cons passage rest ih =>
      rw [List.flatMap_cons, List.count_append, countPairs_append _ (head?_flatMap_text rest),
        passage.count_text, ih]

end Passage

/-! ## The expression from its end -/

namespace Text

/-- Whether a character other than a bracket belongs to an expression, read from the end, when
`depth` brackets are open. -/
def belongs (depth : Nat) (char : Char) : Bool :=
  char.isAlphanum || char == '.' || char == '_' || char == '-' ||
    (0 < depth && (isQuote char || char == ' '))

variable {depth : Nat} {text before : List Char}

theorem expressionFromEnd_cons_of_belongs {char : Char} (inside : belongs depth char = true) :
    expressionFromEnd depth (char :: before) = char :: expressionFromEnd depth before := by
  have noClosing : char ≠ ']' := by
    rintro rfl
    simp [belongs, isQuote] at inside
  have noOpening : char ≠ '[' := by
    rintro rfl
    simp [belongs, isQuote] at inside
  rw [expressionFromEnd, if_neg (by simpa using noClosing), if_neg (by simpa using noOpening)]
  split
  · rfl
  · rename_i other
    rw [belongs, Bool.or_eq_true, or_iff_right other] at inside
    rw [if_pos inside]

theorem expressionFromEnd_append_of_belongs (inside : ∀ char ∈ text, belongs depth char = true) :
    expressionFromEnd depth (text ++ before) = text ++ expressionFromEnd depth before := by
  induction text with
  | nil => rfl
  | cons char rest ih =>
      rw [List.cons_append, expressionFromEnd_cons_of_belongs (inside char List.mem_cons_self),
        ih fun other later => inside other (List.mem_cons_of_mem _ later), List.cons_append]

/-- A text that belongs to an expression as a whole, with its brackets closed. -/
def Spans (text : List Char) : Prop :=
  ∀ depth before, expressionFromEnd depth (text.reverse ++ before) =
    text.reverse ++ expressionFromEnd depth before

theorem Spans.nil : Spans [] := fun _ _ => rfl

theorem Spans.append {left right : List Char} (first : Spans left) (second : Spans right) :
    Spans (left ++ right) := by
  intro depth before
  rw [List.reverse_append, List.append_assoc, second, first, List.append_assoc]

theorem spans_of_belongs (inside : ∀ char ∈ text, belongs 0 char = true) : Spans text := by
  intro depth before
  refine expressionFromEnd_append_of_belongs fun char member => ?_
  have shallow := inside char (List.mem_reverse.mp member)
  simp only [belongs, Bool.or_eq_true] at shallow ⊢
  exact shallow.imp_right (by simp)

theorem spans_bracketed (inside : ∀ char ∈ text, belongs 1 char = true) :
    Spans ('[' :: (text ++ [']'])) := by
  intro depth before
  -- From the end, the closing bracket comes first, and the text stands one level deeper.
  have deeper : ∀ char ∈ text.reverse, belongs (depth + 1) char = true := fun char member => by
    simpa [belongs] using inside char (List.mem_reverse.mp member)
  simp only [List.reverse_cons, List.reverse_append, List.reverse_nil, List.nil_append,
    List.cons_append, List.append_assoc]
  rw [expressionFromEnd, if_pos (by rfl), expressionFromEnd_append_of_belongs deeper,
    expressionFromEnd, if_neg (by decide), if_pos (by rfl), Nat.add_sub_cancel]

/-- No brace belongs to an expression. -/
theorem brace_not_mem_expressionFromEnd {brace : Char} (isBrace : brace = '{' ∨ brace = '}')
    (depth : Nat) (text : List Char) : brace ∉ expressionFromEnd depth text := by
  -- Each of the four tests under which a character is kept fails for a brace.
  have refused : brace ≠ ']' ∧ brace ≠ '[' ∧ (brace.isAlphanum || brace == '.' || brace == '_' ||
      brace == '-') = false ∧ (isQuote brace || brace == ' ') = false := by
    rcases isBrace with rfl | rfl <;> decide
  fun_induction expressionFromEnd depth text <;> grind

theorem Spans.brace_not_mem {brace : Char} (spans : Spans text)
    (isBrace : brace = '{' ∨ brace = '}') : brace ∉ text := by
  intro member
  have whole := spans 0 []
  rw [expressionFromEnd, List.append_nil] at whole
  refine brace_not_mem_expressionFromEnd isBrace 0 text.reverse ?_
  rw [whole]
  exact List.mem_reverse.mpr member

theorem expressionFromEnd_of_endsExpression {lead : List Char}
    (apart : ∀ char ∈ lead.getLast?, endsExpression char = true) :
    expressionFromEnd 0 lead.reverse = [] := by
  rw [← List.head?_reverse] at apart
  cases backwards : lead.reverse with
  | nil => rfl
  | cons char rest =>
      have last : endsExpression char = true := apart char (by rw [backwards]; rfl)
      simp only [endsExpression, isNameChar, Bool.not_eq_true', Bool.or_eq_false_iff] at last
      simp [expressionFromEnd, last]

/-- The expression is found as a whole, also when it breaks off. -/
theorem trailingExpression_append {lead : List Char}
    (apart : ∀ char ∈ lead.getLast?, endsExpression char = true) (spans : Spans text)
    (opener : Opener) :
    trailingExpression (lead ++ text ++ [opener.char]) = text ++ [opener.char] := by
  have opened : ∀ before, expressionFromEnd 0 (opener.char :: before) =
      opener.char :: expressionFromEnd 0 before := fun before => by
    cases opener <;> simp [Opener.char, expressionFromEnd]
  rw [trailingExpression, List.reverse_append, List.reverse_singleton, List.singleton_append,
    opened, List.reverse_append, spans, expressionFromEnd_of_endsExpression apart]
  simp

end Text

namespace WrittenItem

open Text

theorem not_mem_content (item : WrittenItem) {char : Char}
    (refused : item.form.allows char = false) : char ∉ item.content := by
  intro member
  rw [item.plain char member] at refused
  cases refused

theorem belongs_of_isNameChar {char : Char} (depth : Nat) (named : isNameChar char = true) :
    belongs depth char = true := by
  simp only [isNameChar, Bool.or_eq_true] at named
  rcases named with (named | named) | named <;> simp [belongs, named]

theorem belongs_of_allows {form : ItemForm} {char : Char} (allowed : form.allows char = true) :
    belongs 1 char = true := by
  cases form with
  | name => exact belongs_of_isNameChar 1 allowed
  | key =>
      simp only [ItemForm.allows, Bool.or_eq_true] at allowed
      rcases allowed with (named | dot) | space
      · exact belongs_of_isNameChar 1 named
      · simp [belongs, dot]
      · simp [belongs, space]
  | index =>
      have digit : char.isDigit = true := allowed
      simp [belongs, Char.isAlphanum, digit]

/-- An expression goes through an item as a whole. -/
theorem spans_text (item : WrittenItem) : Spans item.text := by
  obtain ⟨form, content, nonempty, plain⟩ := item
  cases form with
  | name =>
      refine spans_of_belongs (List.forall_mem_cons.mpr ⟨rfl, fun char member => ?_⟩)
      exact belongs_of_isNameChar 0 (plain char member)
  | key =>
      have quoted : ∀ char ∈ '"' :: (content ++ ['"']), belongs 1 char = true := by
        simp only [List.forall_mem_cons, List.forall_mem_append]
        exact ⟨rfl, fun char member => belongs_of_allows (plain char member), rfl, List.forall_mem_nil _⟩
      simpa [text, ItemForm.write] using spans_bracketed quoted
  | index => exact spans_bracketed fun char member => belongs_of_allows (plain char member)

theorem spans_flatMap_text (items : List WrittenItem) : Spans (items.flatMap text) := by
  induction items with
  | nil => exact Spans.nil
  | cons item rest ih => exact item.spans_text.append ih

end WrittenItem

/-! ## The expression from its start -/

namespace Text

theorem isQuote_of_isDigit {char : Char} (digit : char.isDigit = true) : isQuote char = false := by
  rw [isQuote, Bool.or_eq_false_iff, beq_eq_false_iff_ne, beq_eq_false_iff_ne]
  constructor <;> rintro rfl <;> cases digit

theorem trimQuotes_trim_digits {digits : List Char}
    (plain : ∀ char ∈ digits, char.isDigit = true) : trimQuotes (trim digits) = digits := by
  have trimmed : trim digits = digits := trimmed_eq_self
    (fun char first => isBlank_of_isDigit (plain char (List.mem_of_head? first)))
    (fun char last => isBlank_of_isDigit (plain char (List.mem_of_getLast? last)))
  rw [trimmed]
  exact trimmed_eq_self
    (fun char first => isQuote_of_isDigit (plain char (List.mem_of_head? first)))
    (fun char last => isQuote_of_isDigit (plain char (List.mem_of_getLast? last)))

theorem trimQuotes_trim_quoted {content : List Char} (nonempty : content ≠ [])
    (plain : ∀ char ∈ content, isQuote char = false) :
    trimQuotes (trim ('"' :: (content ++ ['"']))) = content := by
  have blank : isBlank '"' = false := by decide
  have quote : isQuote '"' = true := rfl
  have trimmed : trim ('"' :: (content ++ ['"'])) = '"' :: (content ++ ['"']) :=
    trimmed_eq_self (by simp [blank])
      (by rw [← List.cons_append, List.getLast?_concat]; simp [blank])
  have first : ∀ char ∈ (content ++ ['"']).head?, isQuote char = false := by
    obtain ⟨char, rest, rfl⟩ := List.exists_cons_of_ne_nil nonempty
    simpa using plain char List.mem_cons_self
  have last : ∀ char ∈ content.reverse.head?, isQuote char = false :=
    fun char last => plain char (List.mem_reverse.mp (List.mem_of_head? last))
  rw [trimmed, trimQuotes, List.dropWhile_cons_of_pos quote, dropWhile_eq_self first,
    List.reverse_append, List.reverse_singleton, List.singleton_append,
    List.dropWhile_cons_of_pos quote, dropWhile_eq_self last, List.reverse_reverse]

end Text

namespace Expression

variable {segments : List String} {name : List Char}

theorem pushName_of_ne_nil (segments : List String) {name : List Char} (nonempty : name ≠ []) :
    pushName segments name = segments ++ [String.ofList name] := by
  rw [pushName, if_neg (by simpa using nonempty)]

/-- A name is read to its end. -/
theorem read_append {text : List Char} (nonempty : text ≠ []) (noDot : '.' ∉ text)
    (noBracket : '[' ∉ text) (trailing : Trailing) (rest : List Char) :
    read segments name trailing (text ++ rest) =
      read segments (name ++ text) .identifier rest := by
  induction text generalizing name trailing with
  | nil => exact absurd rfl nonempty
  | cons char later ih =>
      rw [List.cons_append, read, if_neg (by simpa using (List.ne_of_not_mem_cons noDot).symm),
        if_neg (by simpa using (List.ne_of_not_mem_cons noBracket).symm)]
      cases later with
      | nil => rfl
      | cons next others =>
          rw [ih (List.cons_ne_nil _ _) (List.not_mem_of_not_mem_cons noDot)
            (List.not_mem_of_not_mem_cons noBracket), List.append_assoc, List.singleton_append]

/-- A bracket is read to where it is closed. -/
theorem readBracket_append {item : List Char} (closing : ']' ∉ item) (held rest : List Char) :
    readBracket segments held (item ++ ']' :: rest) =
      read (segments ++ [String.ofList (Text.trimQuotes (Text.trim (held ++ item)))]) [] .closed
        rest := by
  induction item generalizing held with
  | nil => rw [List.nil_append, readBracket, if_pos (by rfl), List.append_nil]
  | cons char later ih =>
      rw [List.cons_append, readBracket,
        if_neg (by simpa using (List.ne_of_not_mem_cons closing).symm),
        ih (List.not_mem_of_not_mem_cons closing), List.append_assoc, List.singleton_append]

/-- An item becomes a segment; a name does so when the next item begins. -/
theorem read_item (item : WrittenItem) (trailing : Trailing) (rest : List Char) :
    ∃ segments' name' trailing', read segments name trailing (item.text ++ rest) =
        read segments' name' trailing' rest ∧
      pushName segments' name' = pushName segments name ++ [item.spelled] := by
  have refused := @item.not_mem_content
  obtain ⟨form, content, nonempty, plain⟩ := item
  cases form with
  | name =>
      -- The content is still being read at the end of the item: what comes next pushes it.
      refine ⟨pushName segments name, content, .identifier, ?_, pushName_of_ne_nil _ nonempty⟩
      rw [WrittenItem.text, ItemForm.write, List.cons_append, read, if_pos (by rfl),
        read_append nonempty (refused rfl) (refused rfl), List.nil_append]
  | key =>
      refine ⟨pushName segments name ++ [String.ofList content], [], .closed, ?_, rfl⟩
      have closing : ']' ∉ '"' :: (content ++ ['"']) := by simpa using refused rfl
      have unquoted : ∀ char ∈ content, Text.isQuote char = false := fun char member => by
        rw [Text.isQuote, Bool.or_eq_false_iff, beq_eq_false_iff_ne, beq_eq_false_iff_ne]
        exact ⟨fun same => refused rfl (same ▸ member), fun same => refused rfl (same ▸ member)⟩
      have split : ItemForm.key.write content ++ rest =
          '[' :: ('"' :: (content ++ ['"']) ++ ']' :: rest) := by simp [ItemForm.write]
      rw [WrittenItem.text, split, read, if_neg (by decide), if_pos (by rfl),
        readBracket_append closing, List.nil_append, Text.trimQuotes_trim_quoted nonempty unquoted]
  | index =>
      refine ⟨pushName segments name ++ [String.ofList content], [], .closed, ?_, rfl⟩
      rw [WrittenItem.text, ItemForm.write, List.cons_append, List.append_assoc,
        List.singleton_append, read, if_neg (by decide), if_pos (by rfl),
        readBracket_append (refused rfl), List.nil_append, Text.trimQuotes_trim_digits plain]

/-- A reference is taken apart into its items. -/
theorem read_items (items : List WrittenItem) (opener : Opener) (trailing : Trailing) :
    read segments name trailing (items.flatMap WrittenItem.text ++ [opener.char]) =
      ⟨pushName segments name ++ items.map WrittenItem.spelled, opener.trailing⟩ := by
  induction items generalizing segments name trailing with
  | nil =>
      cases opener with
      | dot => simp [Opener.char, Opener.trailing, read, pushName]
      | bracket => simp [Opener.char, Opener.trailing, read, readBracket]
  | cons item rest ih =>
      obtain ⟨segments', name', trailing', step, pushed⟩ :=
        read_item item trailing (rest.flatMap WrittenItem.text ++ [opener.char])
      rw [List.flatMap_cons, List.append_assoc, step, ih, pushed, List.append_assoc,
        List.map_cons, List.singleton_append]

end Expression

/-! ## What is offered -/

namespace WrittenReference

open Text

variable (reference : WrittenReference)

theorem spans_path : Spans reference.path := by
  refine Spans.append (spans_of_belongs ?_) (WrittenItem.spans_flatMap_text reference.items)
  cases reference.space <;> simp [Namespace.name, belongs]

theorem ofText_path : Expression.ofText (reference.path ++ [reference.opener.char]) =
    ⟨reference.space.name :: reference.items.map WrittenItem.spelled,
      reference.opener.trailing⟩ := by
  have plain : reference.space.name.toList ≠ [] ∧ '.' ∉ reference.space.name.toList ∧
      '[' ∉ reference.space.name.toList := by
    cases reference.space <;> simp [Namespace.name]
  rw [Expression.ofText, path, List.append_assoc,
    Expression.read_append plain.1 plain.2.1 plain.2.2, Expression.read_items, List.nil_append,
    Expression.pushName_of_ne_nil _ plain.1, String.ofList_toList]
  rfl

/-- What stands in the substitution has no brace. -/
theorem brace_not_mem_opened {brace : Char} (isBrace : brace = '{' ∨ brace = '}') :
    brace ∉ reference.lead.chars ++ reference.path ++ [reference.opener.char] := by
  have noLead : brace ∉ reference.lead.chars := by
    rcases isBrace with rfl | rfl
    · exact reference.lead.noOpening
    · exact reference.lead.noClosing
  have noOpener : brace ≠ reference.opener.char := by
    rcases isBrace with rfl | rfl <;> cases reference.opener <;> decide
  simp [noLead, noOpener, reference.spans_path.brace_not_mem isBrace]

theorem inSubstitution_text : inSubstitution reference.text = true :=
  inSubstitution_append (Passage.count_flatMap_text reference.head)
    (reference.brace_not_mem_opened (.inl rfl)) (reference.brace_not_mem_opened (.inr rfl))

/-- The expression that is typed in the substitution. -/
theorem trailingExpression_text : trailingExpression (substitutionText reference.text) =
    reference.path ++ [reference.opener.char] := by
  rw [text, substitutionText_append (Passage.count_flatMap_text reference.head)
    (reference.brace_not_mem_opened (.inl rfl)) (reference.brace_not_mem_opened (.inr rfl)),
    trailingExpression_append reference.apart reference.spans_path]

end WrittenReference

theorem Opener.awaitsMember_trailing (opener : Opener) : opener.trailing.awaitsMember = true := by
  cases opener <;> rfl

namespace Completion

theorem kindIn_one (space : Namespace) {trailing : Trailing}
    (awaits : trailing.awaitsMember = true) : kindIn space 1 trailing = space.referenceKind := by
  rw [kindIn, if_pos (by rfl), if_pos awaits]

theorem kindIn_more (space : Namespace) (count : Nat) {trailing : Trailing}
    (awaits : trailing.awaitsMember = true) :
    kindIn space (count + 2) trailing = space.propertyKind := by
  have midway : trailing ≠ .identifier := by
    rintro rfl
    cases awaits
  rw [kindIn, if_neg (by simp), if_neg (by simp [midway]), if_pos awaits]

theorem ofExpression_written (reference : WrittenReference) :
    ofExpression ⟨reference.space.name :: reference.items.map WrittenItem.spelled,
      reference.opener.trailing⟩ = reference.completion := by
  have known : Namespace.ofName? reference.space.name = some reference.space := by
    cases reference.space <;> rfl
  have awaits := reference.opener.awaitsMember_trailing
  rw [ofExpression]
  simp only [known]
  cases items : reference.items with
  | nil =>
      rw [List.map_nil, List.length_singleton, kindIn_one _ awaits, WrittenReference.completion,
        items]
      cases reference.space <;> rfl
  | cons item rest =>
      rw [List.map_cons, List.length_cons, List.length_cons, kindIn_more _ _ awaits,
        WrittenReference.completion, items]
      cases reference.space <;> rfl

/-- **A written reference is classified as what it spells**, wherever the cursor stands. -/
theorem ofContext_of_written (reference : WrittenReference) (context : Context)
    (typed : context.before = reference.text) : ofContext context = reference.completion := by
  have inside : context.inSubstitution = true := by
    rw [Context.inSubstitution, typed, reference.inSubstitution_text]
  rw [ofContext_of_inSubstitution inside, typed, ofReference, reference.trailingExpression_text,
    reference.ofText_path, ofExpression_written]

/-- Items of all three forms, in a call, after a dollar sign and a closed substitution. -/
def longReference : WrittenReference where
  head := [.plain ⟨"url: $".toList, by simp, by simp⟩, .closed ⟨"x$".toList, by simp, by simp⟩,
    .plain ⟨" - ".toList, by simp, by simp⟩]
  lead := ⟨"len(\" ".toList, by simp, by simp⟩
  apart := by simp [Text.endsExpression, isNameChar]
  space := .resources
  items := [⟨.key, "my.res x".toList, by simp, by simp [ItemForm.allows, isNameChar]⟩,
    ⟨.index, "07".toList, by simp, by simp [ItemForm.allows]⟩,
    ⟨.name, "spec-a".toList, by simp, by simp [ItemForm.allows, isNameChar]⟩]
  opener := .bracket

theorem ofContext_of_written_long :
    let line := "url: $$\x7bx$\x7d - $\x7blen(\" resources[\"my.res x\"][07].spec-a[ | tail".toList
    let context := Context.ofText line ⟨1, 56⟩ .yaml
    context.before = longReference.text ∧ ofContext context =
      { kind := .stringSubResourceProperty, resourceName := some "my.res x" } :=
  ⟨by decide +kernel, ofContext_of_written longReference _ (by decide +kernel)⟩

end Completion

end Blueprint
