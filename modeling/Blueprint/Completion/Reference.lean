import Blueprint.Completion.Kind
import Blueprint.Element.Reference
import Blueprint.Text.Blank

/-!
# References being typed

A substitution that is being typed ends in a path expression: names and bracketed items after a
namespace. The expression is found from its end, taken apart from its start, and what to offer
follows from its first segment, the number of segments and how it breaks off.
-/

set_option autoImplicit false

namespace Blueprint

namespace Text

/-- Whether a character is a quote. -/
def isQuote (char : Char) : Bool := char == '"' || char == '\x27'

/-- The path expression at the end of a text that is read from its end; `depth` brackets have been
closed and not yet opened. Quotes and spaces belong to it only inside closed brackets. -/
def expressionFromEnd (depth : Nat) : List Char → List Char
  | [] => []
  | char :: rest =>
    if char == ']' then char :: expressionFromEnd (depth + 1) rest
    else if char == '[' then char :: expressionFromEnd (depth - 1) rest
    else if char.isAlphanum || char == '.' || char == '_' || char == '-' then
      char :: expressionFromEnd depth rest
    else if 0 < depth && (isQuote char || char == ' ') then char :: expressionFromEnd depth rest
    else []

/-- The path expression at the end of a text. -/
def trailingExpression (text : List Char) : List Char :=
  (expressionFromEnd 0 text.reverse).reverse

/-- A text without the quotes at its ends. -/
def trimQuotes (text : List Char) : List Char :=
  ((text.dropWhile isQuote).reverse.dropWhile isQuote).reverse

end Text

/-- How a path expression breaks off. -/
inductive Trailing where
  /-- After a dot. -/
  | dot
  /-- Inside a bracket. -/
  | bracket
  /-- In the middle of a name. -/
  | identifier
  /-- Right after a closed bracket. -/
  | closed
deriving DecidableEq, Repr

/-- Whether a member is expected next. -/
def Trailing.awaitsMember : Trailing → Bool
  | dot | bracket => true
  | identifier | closed => false

/-- A path expression taken apart. -/
structure Expression where
  segments : List String
  trailing : Trailing
deriving DecidableEq, Repr

namespace Expression

/-- The segments with one more, if it is not empty. -/
def pushName (segments : List String) (name : List Char) : List String :=
  if name.isEmpty then segments else segments ++ [String.ofList name]

mutual
/-- Take an expression apart from here on; `name` is the name being read. -/
def read (segments : List String) (name : List Char) (trailing : Trailing) :
    List Char → Expression
  | [] => ⟨pushName segments name, trailing⟩
  | char :: rest =>
    if char == '.' then read (pushName segments name) [] .dot rest
    else if char == '[' then readBracket (pushName segments name) [] rest
    else read segments (name ++ [char]) .identifier rest

/-- Take an expression apart from inside a bracket on; `item` is what the bracket holds so far. -/
def readBracket (segments : List String) (item : List Char) : List Char → Expression
  | [] => ⟨segments, .bracket⟩
  | char :: rest =>
    if char == ']' then
      read (segments ++ [String.ofList (Text.trimQuotes (Text.trim item))]) [] .closed rest
    else readBracket segments (item ++ [char]) rest
end

/-- Take an expression apart at its dots and brackets; bracketed items lose their quotes. -/
def ofText (text : List Char) : Expression := read [] [] .identifier text

end Expression

/-! ## What to offer -/

namespace Namespace

/-- What is offered for the name of an element. -/
def referenceKind : Namespace → CompletionKind
  | resources => .stringSubResourceRef
  | vars => .stringSubVariableRef
  | values => .stringSubValueRef
  | dataSources => .stringSubDataSourceRef
  | children => .stringSubChildRef
  | elem => .stringSubElemRef

/-- What is offered for a property of an element; variables have none. -/
def propertyKind : Namespace → CompletionKind
  | resources => .stringSubResourceProperty
  | values => .stringSubValueProperty
  | dataSources => .stringSubDataSourceProperty
  | children => .stringSubChildProperty
  | elem => .stringSubElemRef
  | vars => .stringSubPartialPath

end Namespace

namespace Completion

/-- Whether a name may be the one of a resource. -/
def startsIdentifier (name : String) : Bool :=
  name.toList.head?.any fun char => char.isAlpha || char == '_'

/-- What to offer after a first segment that is no namespace. -/
def ofFreeName (first : String) (expression : Expression) : Completion :=
  if expression.trailing.awaitsMember && startsIdentifier first then
    { kind := .stringSubPotentialResourceProperty, potentialResourceName := some first }
  else if expression.segments.length == 1 && expression.trailing == .identifier then
    { kind := .stringSubOpen }
  else { kind := .stringSubPartialPath }

/-- The kind of what to offer after a namespace and `count` segments in all. -/
def kindIn (space : Namespace) (count : Nat) (trailing : Trailing) : CompletionKind :=
  if count == 1 then if trailing.awaitsMember then space.referenceKind else .stringSubOpen
  else if count == 2 && trailing == .identifier then space.referenceKind
  else if trailing.awaitsMember then space.propertyKind
  else .stringSubPartialPath

/-- The names that go with a kind, from the segment after the namespace. -/
def withName (kind : CompletionKind) (name : Option String) : Completion :=
  match kind with
  | .stringSubResourceProperty => { kind, resourceName := name }
  | .stringSubDataSourceProperty => { kind, dataSourceName := name }
  | .stringSubResourceRef | .stringSubDataSourceRef | .stringSubValueProperty
  | .stringSubChildProperty => { kind, fieldName := name }
  | _ => { kind }

/-- What to offer for a path expression. -/
def ofExpression (expression : Expression) : Completion :=
  match expression.segments with
  | [] => { kind := .stringSubOpen }
  | first :: rest =>
    match Namespace.ofName? first with
    | none => ofFreeName first expression
    | some space =>
      withName (kindIn space expression.segments.length expression.trailing) rest.head?

/-- What to offer after a part of a substitution. -/
def ofReference (text : List Char) : Completion :=
  ofExpression (.ofText (Text.trailingExpression text))

end Completion

end Blueprint
