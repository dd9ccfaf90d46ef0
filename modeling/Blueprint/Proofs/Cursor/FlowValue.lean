import Blueprint.Cursor.Slot
import Blueprint.Proofs.Text.Scanners

/-!
# Values in flow style and their tokens

A JSON value is written as a sequence of tokens (`FlowValue.tokens`), and each token is marked with
the part it plays: a comma with the container it divides, a string with the container it stands in
or as a key, an opening bracket with whether its container is empty. From its part follows what is
being typed right behind a token (`FlowToken.slotBehind?`) and inside of a string
(`FlowToken.slotWithin?`).

Reading from the start, only two things are known at a token: the containers that are open, and the
last character (`Progress`). They agree with the part that the token plays (`FlowToken.Fits`): what
is shown for one token after another holds all along the tokens of a value
(`FlowValue.allFit_tokens`).
-/

set_option autoImplicit false

namespace Blueprint

/-! ## Values -/

/-- A text that stands in quotes. -/
structure StringText where
  chars : List Char
  plain : ∀ char ∈ chars, Text.isReserved char = false

/-- The characters of numbers and of `true`, `false` and `null`. -/
def isLiteralChar (char : Char) : Bool :=
  char.isAlphanum || char == '+' || char == '-' || char == '.'

/-- A text that stands without quotes. -/
structure LiteralText where
  chars : List Char
  nonempty : chars ≠ []
  spelled : ∀ char ∈ chars, isLiteralChar char = true

/-- A value in flow style. -/
inductive FlowValue where
  | literal (text : LiteralText)
  | string (text : StringText)
  | array (items : List FlowValue)
  | object (members : List (StringText × FlowValue))

/-- Arrays and objects are containers. -/
def FlowValue.isContainer : FlowValue → Bool
  | array _ | object _ => true
  | literal _ | string _ => false

/-! ## Tokens -/

namespace Container

/-- The bracket that opens a container. -/
def opener : Container → Char
  | mapping => '{'
  | sequence => '['

/-- The bracket that closes a container. -/
def closer : Container → Char
  | mapping => '}'
  | sequence => ']'

theorem opener_injective {left right : Container} (same : left.opener = right.opener) :
    left = right := by
  cases left <;> cases right <;> first | rfl | cases same

end Container

/-- A token of a value with the part it plays. -/
inductive FlowToken where
  | opening (container : Container) (isEmpty : Bool)
  | closing (container : Container)
  /-- A comma between the entries of a container. -/
  | comma (container : Container)
  | colon
  | key (text : StringText)
  /-- A string that is the value of a member or an item. -/
  | string (container : Container) (text : StringText)
  | literal (text : LiteralText)

namespace FlowToken

/-- A token as it is written. -/
def text : FlowToken → List Char
  | opening container _ => [container.opener]
  | closing container => [container.closer]
  | comma _ => [',']
  | colon => [':']
  | key text | string _ text => '"' :: (text.chars ++ ['"'])
  | literal text => text.chars

/-- What is being typed right behind a token, where the token tells. -/
def slotBehind? : FlowToken → Option Slot
  | opening _ true => some .emptyContainer
  | opening .mapping false | comma .mapping => some .keyField
  | opening .sequence false | comma .sequence => some .sequenceItem
  | colon => some .valueField
  | _ => none

/-- The text inside of a string, and what is being typed there. -/
def slotWithin? : FlowToken → Option (StringText × Slot)
  | key text => some (text, .keyField)
  | string .mapping text => some (text, .valueField)
  | string .sequence text => some (text, .stringContent)
  | _ => none

/-- The comma before an entry of a container, unless it is the first one. -/
def separator (isFirst : Bool) (container : Container) : List FlowToken :=
  if isFirst then [] else [comma container]

end FlowToken

namespace FlowValue

mutual
/-- The tokens of a value that stands in a container. -/
def tokens (place : Container) : FlowValue → List FlowToken
  | literal text => [.literal text]
  | string text => [.string place text]
  | array items =>
    .opening .sequence items.isEmpty :: (itemTokens true items ++ [.closing .sequence])
  | object members =>
    .opening .mapping members.isEmpty :: (memberTokens true members ++ [.closing .mapping])

/-- The tokens of the items of an array. -/
def itemTokens (isFirst : Bool) : List FlowValue → List FlowToken
  | [] => []
  | item :: rest =>
    FlowToken.separator isFirst .sequence ++ (tokens .sequence item ++ itemTokens false rest)

/-- The tokens of the members of an object. -/
def memberTokens (isFirst : Bool) : List (StringText × FlowValue) → List FlowToken
  | [] => []
  | (name, value) :: rest =>
    FlowToken.separator isFirst .mapping ++
      (.key name :: .colon :: (tokens .mapping value ++ memberTokens false rest))
end

end FlowValue

/-! ## Reading from the start -/

/-- What is known once a part of a line has been read: the containers that are open, the innermost
first, and the last character that is no blank. -/
structure Progress where
  stack : List Container
  last : Option Char

namespace Progress

/-- Nothing has been read. -/
def start : Progress := ⟨[], none⟩

/-- An entry of a container may begin. -/
def AwaitsEntry (progress : Progress) (container : Container) : Prop :=
  progress.stack.head? = some container ∧
    (progress.last = some container.opener ∨ progress.last = some ',')

/-- A value may begin: behind a colon in an object, as an entry in an array. -/
def AwaitsValue (progress : Progress) : Container → Prop
  | .mapping => progress.last = some ':'
  | .sequence => progress.AwaitsEntry .sequence

end Progress

namespace FlowToken

/-- What is known once a token has been read. -/
def advance (token : FlowToken) (progress : Progress) : Progress where
  stack := match token with
    | opening container _ => container :: progress.stack
    | closing _ => progress.stack.tail
    | _ => progress.stack
  last := token.text.getLast?

theorem last_advance (token : FlowToken) (progress : Progress) :
    (token.advance progress).last = token.text.getLast? := rfl

/-- What is known once tokens have been read. -/
def advanceAll (tokens : List FlowToken) (progress : Progress) : Progress :=
  tokens.foldl (fun progress token => token.advance progress) progress

/-- The part that a token plays is told by what is known before it and by the next token. -/
def Fits (progress : Progress) (next : Option FlowToken) : FlowToken → Prop
  | opening container isEmpty => isEmpty = true ↔ next = some (closing container)
  | comma container => progress.stack.head? = some container
  | key _ => progress.AwaitsEntry .mapping
  | string container _ => progress.AwaitsValue container
  | closing _ | colon | literal _ => True

/-- Each of several tokens fits. -/
def AllFit (progress : Progress) : List FlowToken → Prop
  | [] => True
  | token :: rest => token.Fits progress rest.head? ∧ AllFit (token.advance progress) rest

/-- What is shown all along holds at each token. -/
theorem AllFit.fits {front back : List FlowToken} {token : FlowToken} {progress : Progress}
    (fit : AllFit progress (front ++ token :: back)) :
    token.Fits (advanceAll front progress) back.head? := by
  induction front generalizing progress with
  | nil => exact fit.1
  | cons first rest ih => exact ih fit.2

end FlowToken

namespace FlowValue

open FlowToken

/-- A value begins with a token that closes nothing. -/
theorem exists_tokens_eq_cons (place : Container) (value : FlowValue) :
    ∃ token rest, value.tokens place = token :: rest ∧
      ∀ container, token ≠ .closing container := by
  cases value with
  | literal text => exact ⟨_, _, tokens.eq_1 place text, fun _ same => by cases same⟩
  | string text => exact ⟨_, _, tokens.eq_2 place text, fun _ same => by cases same⟩
  | array items => exact ⟨_, _, tokens.eq_3 place items, fun _ same => by cases same⟩
  | object members => exact ⟨_, _, tokens.eq_4 place members, fun _ same => by cases same⟩

theorem isEmpty_iff_head?_items (items : List FlowValue) (rest : List FlowToken) :
    items.isEmpty = true ↔
      (itemTokens true items ++ .closing .sequence :: rest).head? = some (.closing .sequence) := by
  cases items with
  | nil => simp [itemTokens]
  | cons item others =>
      obtain ⟨token, later, spelled, unclosed⟩ := exists_tokens_eq_cons .sequence item
      simp [itemTokens, separator, spelled, unclosed]

theorem isEmpty_iff_head?_members (members : List (StringText × FlowValue))
    (rest : List FlowToken) :
    members.isEmpty = true ↔
      (memberTokens true members ++ .closing .mapping :: rest).head? =
        some (.closing .mapping) := by
  cases members with
  | nil => simp [memberTokens]
  | cons member others => simp [memberTokens, separator]

mutual
/-- The tokens of a value fit where a value may begin, and behind them what was open before is
open again. -/
theorem allFit_append : ∀ (value : FlowValue) (place : Container) (progress : Progress)
    (rest : List FlowToken), (value.isContainer = false → progress.AwaitsValue place) →
    (∀ last, AllFit ⟨progress.stack, last⟩ rest) →
    AllFit progress (value.tokens place ++ rest)
  | .literal text, place, progress, rest, _, behind => by
      rw [tokens]
      exact ⟨trivial, behind _⟩
  | .string text, place, progress, rest, awaits, behind => by
      rw [tokens]
      exact ⟨awaits rfl, behind _⟩
  | .array items, place, progress, rest, _, behind => by
      rw [tokens, List.cons_append, List.append_assoc, List.singleton_append]
      refine ⟨isEmpty_iff_head?_items items rest, ?_⟩
      -- The closing bracket takes the array off the stack again, before what follows is read.
      exact allFit_items items true progress.stack _ _ (fun _ => rfl)
        fun last => ⟨trivial, behind _⟩
  | .object members, place, progress, rest, _, behind => by
      rw [tokens, List.cons_append, List.append_assoc, List.singleton_append]
      refine ⟨isEmpty_iff_head?_members members rest, ?_⟩
      exact allFit_members members true progress.stack _ _ (fun _ => rfl)
        fun last => ⟨trivial, behind _⟩

/-- The tokens of items fit in an open array. Only the first item depends on what came before, all
others stand behind a comma. -/
theorem allFit_items : ∀ (items : List FlowValue) (isFirst : Bool) (stack : List Container)
    (last : Option Char) (rest : List FlowToken),
    (isFirst = true → last = some Container.sequence.opener) →
    (∀ last, AllFit ⟨.sequence :: stack, last⟩ rest) →
    AllFit ⟨.sequence :: stack, last⟩ (itemTokens isFirst items ++ rest)
  | [], _, _, last, _, _, behind => by
      rw [itemTokens]
      exact behind last
  | item :: others, isFirst, stack, last, rest, first, behind => by
      have further := fun last =>
        allFit_items others false stack last rest (fun absent => by cases absent) behind
      rw [itemTokens, List.append_assoc, List.append_assoc]
      cases isFirst with
      | true =>
          exact allFit_append item .sequence _ _ (fun _ => ⟨rfl, .inl (first rfl)⟩) further
      | false =>
          refine ⟨rfl, ?_⟩
          exact allFit_append item .sequence _ _ (fun _ => ⟨rfl, .inr rfl⟩) further

/-- The tokens of members fit in an open object. -/
theorem allFit_members : ∀ (members : List (StringText × FlowValue)) (isFirst : Bool)
    (stack : List Container) (last : Option Char) (rest : List FlowToken),
    (isFirst = true → last = some Container.mapping.opener) →
    (∀ last, AllFit ⟨.mapping :: stack, last⟩ rest) →
    AllFit ⟨.mapping :: stack, last⟩ (memberTokens isFirst members ++ rest)
  | [], _, _, last, _, _, behind => by
      rw [memberTokens]
      exact behind last
  | (name, value) :: others, isFirst, stack, last, rest, first, behind => by
      have further := fun last =>
        allFit_members others false stack last rest (fun absent => by cases absent) behind
      have member : ∀ last, (last = some Container.mapping.opener ∨ last = some ',') →
          AllFit ⟨.mapping :: stack, last⟩
            (.key name :: .colon ::
              (tokens .mapping value ++ (memberTokens false others ++ rest))) := by
        intro last entry
        refine ⟨⟨rfl, entry⟩, trivial, ?_⟩
        exact allFit_append value .mapping _ _ (fun _ => rfl) further
      rw [memberTokens, List.append_assoc, List.cons_append, List.cons_append, List.append_assoc]
      cases isFirst with
      | true => exact member last (.inl (first rfl))
      | false => exact ⟨rfl, member _ (.inr rfl)⟩
end

/-- The tokens of a whole object or array fit, read from the start. -/
theorem allFit_tokens {value : FlowValue} (isContainer : value.isContainer = true)
    (place : Container) : AllFit .start (value.tokens place) := by
  have fit := allFit_append value place .start []
    (fun scalar => by rw [scalar] at isContainer; cases isContainer) fun _ => trivial
  rwa [List.append_nil] at fit

end FlowValue

end Blueprint
