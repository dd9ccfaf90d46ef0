import Blueprint.Proofs.Cursor.FlowValue

/-!
# Lines in flow style

A line in flow style is the tokens of a value with blanks around them. Cut behind one of its tokens
or inside of a string, it shows what is being typed at the cut (`FlowLine.Cut`), and this is what is
detected from its two halves (`FlowLine.detect_of_cut`).

Detection scans the first half for brackets and quotes and looks at its last character. After each
token the scanners know what is known from reading the tokens (`Progress.KnownFrom`): it holds at
the start of a line, each token keeps it (`Progress.KnownFrom.advance`), and so it holds all along.
-/

set_option autoImplicit false

namespace Blueprint

open Text

/-! ## Tokens as the scanners see them -/

theorem isBlank_of_isLiteralChar {char : Char} (spelled : isLiteralChar char = true) :
    isBlank char = false := by
  simp only [isLiteralChar, Bool.or_eq_true, beq_iff_eq] at spelled
  rcases spelled with ((alphanum | rfl) | rfl) | rfl
  · exact isBlank_of_isAlphanum alphanum
  · decide
  · decide
  · decide

/-- The innermost bracket tells the innermost container. -/
theorem Slot.containerOf_head? (stack : List Container) :
    (stack.map Container.opener).head?.map containerOf = stack.head? := by
  cases stack with
  | nil => rfl
  | cons container outer => cases container <;> rfl

namespace LiteralText

theorem plain (text : LiteralText) : ∀ char ∈ text.chars, isReserved char = false :=
  fun char member => isReserved_of_apart (by decide) (text.spelled char member)

theorem visible (text : LiteralText) : ∀ char ∈ text.chars, isBlank char = false :=
  fun char member => isBlank_of_isLiteralChar (text.spelled char member)

end LiteralText

namespace StringText

/-- A string in quotes opens and closes no container. -/
theorem openBracketsFrom_quoted (text : StringText) (stack rest : List Char) :
    openBracketsFrom false stack ('"' :: (text.chars ++ ['"']) ++ rest) =
      openBracketsFrom false stack rest := by
  rw [List.cons_append, List.append_assoc, List.singleton_append]
  show openBracketsFrom true stack (text.chars ++ '"' :: rest) = _
  rw [openBracketsFrom_append text.plain]
  rfl

/-- A string in quotes leaves none open. -/
theorem openQuoteFrom_quoted (text : StringText) (here : Nat) (rest : List Char) :
    openQuoteFrom here none false ('"' :: (text.chars ++ ['"']) ++ rest) =
      openQuoteFrom (here + ('"' :: (text.chars ++ ['"'])).length) none false rest := by
  rw [List.cons_append, List.append_assoc, List.singleton_append, List.length_cons,
    List.length_append, List.length_singleton]
  show openQuoteFrom (here + 1) (some here) false (text.chars ++ '"' :: rest) = _
  rw [openQuoteFrom_append text.plain]
  show openQuoteFrom (here + 1 + text.chars.length + 1) none false rest = _
  congr 1
  omega

end StringText

namespace FlowToken

/-- The brackets that are open behind a token. -/
theorem openBracketsFrom_text (token : FlowToken) (progress : Progress) (rest : List Char) :
    openBracketsFrom false (progress.stack.map Container.opener) (token.text ++ rest) =
      openBracketsFrom false ((token.advance progress).stack.map Container.opener) rest := by
  cases token with
  | opening container isEmpty => cases container <;> rfl
  | closing container =>
      rw [advance, List.map_tail]
      cases container <;> rfl
  | comma container => rfl
  | colon => rfl
  | key text => exact text.openBracketsFrom_quoted _ rest
  | string container text => exact text.openBracketsFrom_quoted _ rest
  | literal text => exact openBracketsFrom_append text.plain false _ rest

/-- No string is open behind a token. -/
theorem openQuoteFrom_text (token : FlowToken) (here : Nat) (rest : List Char) :
    openQuoteFrom here none false (token.text ++ rest) =
      openQuoteFrom (here + token.text.length) none false rest := by
  cases token with
  | opening container isEmpty => cases container <;> rfl
  | closing container => cases container <;> rfl
  | comma container => rfl
  | colon => rfl
  | key text => exact text.openQuoteFrom_quoted here rest
  | string container text => exact text.openQuoteFrom_quoted here rest
  | literal text => exact openQuoteFrom_append text.plain here none rest

/-- A token ends with a character that is no blank. -/
theorem exists_text_eq_concat (token : FlowToken) :
    ∃ front char, token.text = front ++ [char] ∧ isBlank char = false := by
  cases token with
  | opening container isEmpty => exact ⟨[], _, rfl, by cases container <;> decide⟩
  | closing container => exact ⟨[], _, rfl, by cases container <;> decide⟩
  | comma container => exact ⟨[], _, rfl, by decide⟩
  | colon => exact ⟨[], _, rfl, by decide⟩
  | key text => exact ⟨'"' :: text.chars, '"', rfl, by decide⟩
  | string container text => exact ⟨'"' :: text.chars, '"', rfl, by decide⟩
  | literal text =>
      refine ⟨_, _, (List.dropLast_concat_getLast text.nonempty).symm, ?_⟩
      exact text.visible _ (List.getLast_mem text.nonempty)

/-- A token begins with a character that is no blank, and with the bracket that closes a container
only if it closes one. -/
theorem exists_text_eq_cons (token : FlowToken) :
    ∃ char rest, token.text = char :: rest ∧ isBlank char = false ∧
      ∀ container : Container, char = container.closer ↔ token = .closing container := by
  cases token with
  | opening container isEmpty =>
      refine ⟨_, _, rfl, by cases container <;> decide, fun other => ?_⟩
      cases container <;> cases other <;> simp [Container.opener, Container.closer]
  | closing container =>
      refine ⟨_, _, rfl, by cases container <;> decide, fun other => ?_⟩
      cases container <;> cases other <;> simp [Container.closer]
  | comma container =>
      refine ⟨_, _, rfl, by decide, fun other => ?_⟩
      cases other <;> simp [Container.closer]
  | colon =>
      refine ⟨_, _, rfl, by decide, fun other => ?_⟩
      cases other <;> simp [Container.closer]
  | key text =>
      refine ⟨_, _, rfl, by decide, fun other => ?_⟩
      cases other <;> simp [Container.closer]
  | string container text =>
      refine ⟨_, _, rfl, by decide, fun other => ?_⟩
      cases other <;> simp [Container.closer]
  | literal text =>
      obtain ⟨char, rest, split⟩ := List.exists_cons_of_ne_nil text.nonempty
      have first : char ∈ text.chars := split ▸ List.mem_cons_self
      refine ⟨char, rest, split, text.visible char first, fun other => ?_⟩
      have plain := text.plain char first
      constructor
      · rintro rfl
        cases other <;> cases plain
      · intro closes
        cases closes

end FlowToken

/-! ## Lines -/

/-- A token with the blanks behind it. -/
structure SpacedToken where
  token : FlowToken
  gap : List Char
  blank : allBlank gap = true

namespace SpacedToken

/-- A token and its blanks as they are written. -/
def text (spaced : SpacedToken) : List Char := spaced.token.text ++ spaced.gap

/-- Tokens as they are written. -/
def textOf (tokens : List SpacedToken) : List Char := tokens.flatMap text

end SpacedToken

open SpacedToken (textOf)

/-- Tokens on a line, with the blanks before the first. -/
structure FlowLine where
  lead : List Char
  blank : allBlank lead = true
  tokens : List SpacedToken

namespace FlowLine

/-- The text of a line. -/
def text (line : FlowLine) : List Char := line.lead ++ textOf line.tokens

/-- An object or array is written on a line. -/
structure Spells (line : FlowLine) (value : FlowValue) : Prop where
  isContainer : value.isContainer = true
  tokens_eq : ∃ place, line.tokens.map SpacedToken.token = value.tokens place

/-- The halves of a line that is cut where a token tells what is being typed. -/
inductive Cut (line : FlowLine) : (before after : List Char) → Slot → Prop where
  /-- Behind a token, with some of its blanks. -/
  | behind {front back : List SpacedToken} {spaced : SpacedToken} {near far : List Char}
      {slot : Slot} (split : line.tokens = front ++ spaced :: back)
      (gap : spaced.gap = near ++ far) (tells : spaced.token.slotBehind? = some slot) :
      Cut line (line.lead ++ textOf front ++ (spaced.token.text ++ near)) (far ++ textOf back) slot
  /-- Between the quotes of a string. -/
  | within {front back : List SpacedToken} {spaced : SpacedToken} {text : StringText}
      {typed rest : List Char} {slot : Slot} (split : line.tokens = front ++ spaced :: back)
      (tells : spaced.token.slotWithin? = some (text, slot)) (chars : text.chars = typed ++ rest) :
      Cut line (line.lead ++ textOf front ++ '"' :: typed)
        (rest ++ '"' :: (spaced.gap ++ textOf back)) slot

end FlowLine

theorem FlowToken.text_of_slotWithin? {token : FlowToken} {text : StringText} {slot : Slot}
    (tells : token.slotWithin? = some (text, slot)) :
    token.text = '"' :: (text.chars ++ ['"']) := by
  cases token with
  | key name => cases tells; rfl
  | string container content => cases container <;> cases tells <;> rfl
  | _ => cases tells

/-- The halves of a line make up the line. -/
theorem FlowLine.Cut.append_eq {line : FlowLine} {before after : List Char} {slot : Slot}
    (cut : line.Cut before after slot) : before ++ after = line.text := by
  cases cut with
  | behind split gap tells =>
      simp [FlowLine.text, split, textOf, SpacedToken.text, gap]
  | within split tells chars =>
      simp [FlowLine.text, split, textOf, SpacedToken.text, FlowToken.text_of_slotWithin? tells,
        chars]

/-! ## Reading a line -/

/-- The scanners know of a text what is known from reading its tokens. -/
structure Progress.KnownFrom (progress : Progress) (text : List Char) : Prop where
  brackets : ∀ rest, openBracketsFrom false [] (text ++ rest) =
    openBracketsFrom false (progress.stack.map Container.opener) rest
  quotes : ∀ rest, openQuoteFrom 0 none false (text ++ rest) =
    openQuoteFrom text.length none false rest
  last : (trimEnd text).getLast? = progress.last

namespace Progress.KnownFrom

variable {progress : Progress} {text lead gap : List Char}

theorem start (blank : allBlank lead = true) : KnownFrom .start lead where
  brackets rest := openBracketsFrom_append (isReserved_of_allBlank blank) false [] rest
  quotes rest := by
    rw [openQuoteFrom_append (isReserved_of_allBlank blank), Nat.zero_add]
  last := by
    have nothing : trimEnd lead = [] := trimEnd_append_of_allBlank blank []
    rw [nothing]
    rfl

/-- A token and the blanks behind it are read as one token. -/
theorem advance (known : progress.KnownFrom text) (token : FlowToken)
    (blank : allBlank gap = true) :
    (token.advance progress).KnownFrom (text ++ (token.text ++ gap)) where
  brackets rest := by
    rw [List.append_assoc, List.append_assoc, known.brackets, token.openBracketsFrom_text,
      openBracketsFrom_append (isReserved_of_allBlank blank)]
  quotes rest := by
    rw [List.append_assoc, List.append_assoc, known.quotes, token.openQuoteFrom_text,
      openQuoteFrom_append (isReserved_of_allBlank blank), List.length_append,
      List.length_append, Nat.add_assoc]
  last := by
    obtain ⟨front, char, spelled, visible⟩ := token.exists_text_eq_concat
    have split : text ++ (token.text ++ gap) = (text ++ front) ++ char :: gap := by
      simp [spelled]
    rw [split, getLast?_trimEnd visible blank, token.last_advance, spelled, List.getLast?_concat]

/-- So are several tokens. -/
theorem advanceAll (known : progress.KnownFrom text) (tokens : List SpacedToken) :
    (FlowToken.advanceAll (tokens.map SpacedToken.token) progress).KnownFrom
      (text ++ textOf tokens) := by
  induction tokens generalizing progress text with
  | nil =>
      rw [textOf, List.flatMap_nil, List.append_nil]
      exact known
  | cons spaced rest ih =>
      rw [textOf, List.flatMap_cons, ← List.append_assoc]
      exact ih (known.advance spaced.token spaced.blank)

/-- The innermost container that is open. -/
theorem container_eq (known : progress.KnownFrom text) :
    (openBracket? text).map Slot.containerOf = progress.stack.head? := by
  have stack := known.brackets []
  rw [List.append_nil] at stack
  rw [openBracket?, stack]
  exact Slot.containerOf_head? progress.stack

/-- No string is open. -/
theorem openQuote?_eq_none (known : progress.KnownFrom text) : openQuote? text = none := by
  have closed := known.quotes []
  rwa [List.append_nil] at closed

end Progress.KnownFrom

/-! ## What is detected -/

namespace Slot

variable {before after : List Char}

/-- A cursor is between brackets when those of one container are next to it. -/
theorem isBetweenBrackets_iff :
    isBetweenBrackets before after = true ↔ ∃ container : Container,
      (trimEnd before).getLast? = some container.opener ∧
        (trimStart after).head? = some container.closer := by
  unfold isBetweenBrackets
  constructor
  · intro between
    split at between
    · next left right => exact ⟨.sequence, left, right⟩
    · next left right => exact ⟨.mapping, left, right⟩
    · cases between
  · rintro ⟨container, left, right⟩
    rw [left, right]
    cases container <;> rfl

/-- Whether a cursor is between brackets does not depend on what stands before a quote. -/
theorem isBetweenBrackets_append_quote (lead content after : List Char) :
    isBetweenBrackets (lead ++ '"' :: content) after = isBetweenBrackets content after := by
  have last : ∀ container : Container,
      (trimEnd (lead ++ '"' :: content)).getLast? = some container.opener ↔
        (trimEnd content).getLast? = some container.opener := by
    intro container
    rw [trimEnd_append_cons (by decide), List.getLast?_append, List.getLast?_cons, Option.some_or]
    cases (trimEnd content).getLast? with
    | none => cases container <;> decide
    | some char => exact Iff.rfl
  rw [Bool.eq_iff_iff, isBetweenBrackets_iff, isBetweenBrackets_iff]
  simp only [last]

theorem detect_of_isFlow {style : Style} (flow : style.isFlow = true) (before after : List Char)
    (container : Option Container) :
    detect style before after container =
      inFlow before after (((openBracket? before).map containerOf).or container) := by
  cases style with
  | blockYaml => cases flow
  | flowYaml => rfl
  | jsonc => rfl

end Slot

namespace Progress.KnownFrom

variable {progress : Progress} {token : FlowToken} {before after text typed : List Char}
  {slot : Slot}

/-- Behind a token, what the token tells is detected. -/
theorem inFlow_behind {next : Option FlowToken}
    (known : (token.advance progress).KnownFrom before) (fits : token.Fits progress next)
    (closes : ∀ container : Container,
      (trimStart after).head? = some container.closer ↔ next = some (.closing container))
    (tells : token.slotBehind? = some slot) (container : Option Container) :
    Slot.inFlow before after ((token.advance progress).stack.head?.or container) = slot := by
  have last := known.last
  rw [token.last_advance] at last
  -- Only a token that opens a container can stand before the closing bracket of the same kind.
  have between : Slot.isBetweenBrackets before after = true ↔ ∃ container : Container,
      token.text.getLast? = some container.opener ∧ next = some (.closing container) := by
    simp only [Slot.isBetweenBrackets_iff, last, closes]
  unfold Slot.inFlow
  rw [known.openQuote?_eq_none]
  dsimp only
  unfold Slot.afterMark
  rw [last]
  have apart (other : ∀ container : Container, token.text.getLast? ≠ some container.opener) :
      ¬Slot.isBetweenBrackets before after = true := by
    intro here
    obtain ⟨container, same, -⟩ := between.mp here
    exact other container same
  cases token with
  | opening opened isEmpty =>
      cases isEmpty with
      | true =>
          obtain rfl := Option.some.inj tells
          exact if_pos (between.mpr ⟨opened, rfl, fits.mp rfl⟩)
      | false =>
          have filled : ¬Slot.isBetweenBrackets before after = true := by
            intro here
            obtain ⟨other, same, closed⟩ := between.mp here
            obtain rfl := Container.opener_injective (Option.some.inj same)
            cases fits.mpr closed
          rw [if_neg filled]
          cases opened <;> exact Option.some.inj tells
  | comma divided =>
      have inside : (FlowToken.advance (.comma divided) progress).stack.head? = some divided := fits
      rw [if_neg (apart fun other same => by cases other <;> cases same), inside]
      cases divided <;> exact Option.some.inj tells
  | colon =>
      rw [if_neg (apart fun other same => by cases other <;> cases same)]
      exact Option.some.inj tells
  | _ => cases tells

/-- Inside of a string, what the string tells is detected. -/
theorem inString_eq {next : Option FlowToken} {content : StringText}
    (known : progress.KnownFrom text) (fits : token.Fits progress next)
    (tells : token.slotWithin? = some (content, slot)) (container : Option Container) :
    Slot.inString text (progress.stack.head?.or container) = slot := by
  unfold Slot.inString
  rw [known.last]
  cases token with
  | key name =>
      cases tells
      obtain ⟨inside, opens | divides⟩ := fits
      · rw [opens]
        rfl
      · rw [inside, divides]
        rfl
  | string place value =>
      cases place with
      | mapping =>
          cases tells
          have colon : progress.last = some ':' := fits
          rw [colon]
          rfl
      | sequence =>
          cases tells
          obtain ⟨inside, opens | divides⟩ := fits
          · rw [opens]
            rfl
          · rw [inside, divides]
            rfl
  | _ => cases tells

/-- A quote that is opened behind what has been read is open, in the container that was open. -/
theorem container_eq_of_quote (known : progress.KnownFrom text)
    (plain : ∀ char ∈ typed, isReserved char = false) :
    (openBracket? (text ++ '"' :: typed)).map Slot.containerOf = progress.stack.head? := by
  have passed := openBracketsFrom_append plain true (progress.stack.map Container.opener) []
  rw [List.append_nil] at passed
  have stack : openBracketsFrom false [] (text ++ '"' :: typed) =
      progress.stack.map Container.opener := (known.brackets _).trans passed
  rw [openBracket?, stack]
  exact Slot.containerOf_head? progress.stack

theorem openQuote?_of_quote (known : progress.KnownFrom text)
    (plain : ∀ char ∈ typed, isReserved char = false) :
    openQuote? (text ++ '"' :: typed) = some text.length := by
  have passed := openQuoteFrom_append plain (text.length + 1) (some text.length) []
  rw [List.append_nil] at passed
  exact (known.quotes _).trans passed

end Progress.KnownFrom

/-- A cursor behind a quote and text without brackets is not between brackets. -/
theorem Slot.isBetweenBrackets_of_quote {typed : List Char}
    (plain : ∀ char ∈ typed, isReserved char = false) (text after : List Char) :
    isBetweenBrackets (text ++ '"' :: typed) after = false := by
  rw [isBetweenBrackets_append_quote, ← Bool.not_eq_true, isBetweenBrackets_iff]
  rintro ⟨container, left, -⟩
  have := plain _ ((trimEnd_isPrefix typed).subset (List.mem_of_getLast? left))
  cases container <;> cases this

/-- The token that follows blanks closes a container when its bracket comes next. -/
theorem SpacedToken.head?_trimStart {far : List Char} (blank : allBlank far = true)
    (back : List SpacedToken) (container : Container) :
    (trimStart (far ++ textOf back)).head? = some container.closer ↔
      (back.map SpacedToken.token).head? = some (.closing container) := by
  rw [trimStart_append_of_allBlank blank]
  cases back with
  | nil => simp [textOf, trimStart]
  | cons spaced rest =>
      obtain ⟨char, later, spelled, visible, closes⟩ := spaced.token.exists_text_eq_cons
      rw [textOf, List.flatMap_cons, SpacedToken.text, spelled, List.cons_append,
        List.cons_append, trimStart_cons visible, List.head?_cons, List.map_cons, List.head?_cons,
        Option.some_inj, Option.some_inj]
      exact closes container

namespace FlowLine

variable {line : FlowLine} {value : FlowValue}

/-- At each token of a line it is known what part the token plays. -/
theorem Spells.fits (spells : line.Spells value) {front back : List SpacedToken}
    {spaced : SpacedToken} (split : line.tokens = front ++ spaced :: back) :
    spaced.token.Fits (FlowToken.advanceAll (front.map SpacedToken.token) .start)
      (back.map SpacedToken.token).head? := by
  obtain ⟨place, spelled⟩ := spells.tokens_eq
  have fit := value.allFit_tokens spells.isContainer place
  rw [← spelled, split, List.map_append, List.map_cons] at fit
  exact fit.fits

/-- Where an object or array on a line is cut behind a token or inside of a string, what is being
typed there is detected, in both flow styles and whatever container is presumed. -/
theorem detect_of_cut (spells : line.Spells value) {before after : List Char} {slot : Slot}
    (cut : line.Cut before after slot) {style : Style} (flow : style.isFlow = true)
    (container : Option Container) :
    before ++ after = line.text ∧ Slot.detect style before after container = slot := by
  refine ⟨cut.append_eq, ?_⟩
  rw [Slot.detect_of_isFlow flow]
  cases cut with
  | @behind front back spaced near far _ split gap tells =>
      have blank := spaced.blank
      rw [gap, allBlank_append, Bool.and_eq_true] at blank
      have known := ((Progress.KnownFrom.start line.blank).advanceAll front).advance spaced.token
        blank.1
      rw [known.container_eq]
      exact known.inFlow_behind (spells.fits split) (SpacedToken.head?_trimStart blank.2 back)
        tells container
  | @within front back spaced text typed rest _ split tells chars =>
      have known := (Progress.KnownFrom.start line.blank).advanceAll front
      -- Neither a bracket nor a quote has been typed, so the scanners stop where the string began.
      have plain : ∀ char ∈ typed, isReserved char = false := by
        intro char member
        refine text.plain char ?_
        rw [chars]
        exact List.mem_append_left rest member
      unfold Slot.inFlow
      rw [Slot.isBetweenBrackets_of_quote plain, known.openQuote?_of_quote plain,
        known.container_eq_of_quote plain, if_neg Bool.false_ne_true]
      dsimp only
      rw [List.take_left]
      exact known.inString_eq (spells.fits split) tells container

end FlowLine

namespace FlowLine.Nested

def one : StringText := ⟨['a'], by simp [isReserved]⟩

def other : StringText := ⟨['b', ':'], by simp [isReserved]⟩

def entry : StringText := ⟨['x', ' ', ','], by simp [isReserved]⟩

/-- An object with an empty array and one with two items. -/
def value : FlowValue :=
  .object [(one, .array []), (other, .array [.string one, .string entry])]

def front : List SpacedToken :=
  [⟨.opening .mapping false, [' '], rfl⟩, ⟨.key one, [], rfl⟩, ⟨.colon, [], rfl⟩,
    ⟨.opening .sequence true, [' '], rfl⟩, ⟨.closing .sequence, [], rfl⟩,
    ⟨.comma .mapping, [], rfl⟩, ⟨.key other, [' '], rfl⟩, ⟨.colon, [' '], rfl⟩,
    ⟨.opening .sequence false, [], rfl⟩, ⟨.string .sequence one, [], rfl⟩]

def comma : SpacedToken := ⟨.comma .sequence, [' ', ' '], rfl⟩

def item : SpacedToken := ⟨.string .sequence entry, [], rfl⟩

def back : List SpacedToken := [⟨.closing .sequence, [], rfl⟩, ⟨.closing .mapping, [' '], rfl⟩]

def line : FlowLine := ⟨[' '], rfl, front ++ comma :: item :: back⟩

theorem spells : line.Spells value := ⟨rfl, .sequence, by
  simp [line, front, comma, item, back, value, FlowValue.tokens, FlowValue.itemTokens,
    FlowValue.memberTokens, FlowToken.separator]⟩

/-- The line up to a blank behind the comma between the two items. -/
def upToItem : List Char := " \x7b \"a\":[ ],\"b:\" : [\"a\", ".toList

/-- Behind the comma of ` { "a":[ ],"b:" : ["a",  "x ,"]} ` an item is typed, and behind its `x` a
string, also where a mapping is presumed. -/
theorem detect_of_cut_nested :
    line.Cut upToItem " \"x ,\"]\x7d ".toList .sequenceItem ∧
      Slot.detect .flowYaml upToItem " \"x ,\"]\x7d ".toList (some .mapping) = .sequenceItem ∧
    line.Cut (upToItem ++ " \"x".toList) " ,\"]\x7d ".toList .stringContent ∧
      Slot.detect .jsonc (upToItem ++ " \"x".toList) " ,\"]\x7d ".toList (some .mapping) =
        .stringContent := by
  have behind : line.Cut upToItem " \"x ,\"]\x7d ".toList .sequenceItem :=
    @Cut.behind line front (item :: back) comma [' '] [' '] _ rfl rfl rfl
  have inside : line.Cut (upToItem ++ " \"x".toList) " ,\"]\x7d ".toList .stringContent :=
    @Cut.within line (front ++ [comma]) back item entry ['x'] [' ', ','] _ rfl rfl rfl
  exact ⟨behind, (detect_of_cut spells behind rfl _).2,
    inside, (detect_of_cut spells inside rfl _).2⟩

end FlowLine.Nested

end Blueprint
