import Blueprint.Config.Basic
import Blueprint.Draft

/-!
# Outlines

The outline of a document shows one symbol for the file, one for each container and one for each
scalar. Error regions are not shown; what was recovered inside them is listed in their place.

A symbol reaches from the start of its entry to the end of its node. Where that end is not known
it is taken from the last child, from the next sibling or from the end of the file, and it never
goes past the next sibling.
-/

set_option autoImplicit false

namespace Blueprint

/-- The kind of a symbol. -/
inductive SymbolKind where
  | file
  | string
  | number
  | boolean
  | array
  | object
  | key
  | null
deriving DecidableEq, Repr

namespace SymbolKind

/-- The name of a symbol kind. -/
def name : SymbolKind → String
  | file => "file"
  | string => "string"
  | number => "number"
  | boolean => "boolean"
  | array => "array"
  | object => "object"
  | key => "key"
  | null => "null"

/-- The number by which editors know a symbol kind. -/
def code : SymbolKind → Nat
  | file => 1
  | string => 15
  | number => 16
  | boolean => 17
  | array => 18
  | object => 19
  | key => 20
  | null => 21

/-- The symbol kind of a scalar. -/
def ofScalar : Option ScalarType → SymbolKind
  | some .integer | some .float => number
  | some .boolean => boolean
  | some .null => null
  | some .string | none => string

/-- The symbol kind of a node. -/
def ofEntry (entry : Entry) : SymbolKind :=
  match entry.kind with
  | .document => file
  | .mapping | .error => object
  | .sequence => array
  | .scalar => ofScalar entry.scalarType
  | .key => key

end SymbolKind

/-- What a symbol says of itself. -/
structure SymbolEntry where
  name : String
  /-- The value of a scalar, if it is to be shown. -/
  detail : Option String
  kind : SymbolKind
  span : Span
  /-- The part that is selected when the symbol is picked. -/
  selection : Span
deriving DecidableEq, Repr

/-- A symbol with those below it. -/
inductive Symbol where
  | node (entry : SymbolEntry) (children : List Symbol)
deriving Repr

namespace Symbol

/-- What the topmost symbol says of itself. -/
def entry : Symbol → SymbolEntry
  | node entry _ => entry

/-- The symbols right below the topmost one. -/
def children : Symbol → List Symbol
  | node _ children => children

mutual
/-- The number of symbols. -/
def size : Symbol → Nat
  | node _ children => sizeAll children + 1

/-- The number of symbols of a list. -/
def sizeAll : List Symbol → Nat
  | [] => 0
  | symbol :: rest => symbol.size + sizeAll rest
end

theorem sizeAll_append (left right : List Symbol) :
    sizeAll (left ++ right) = sizeAll left + sizeAll right := by
  induction left with
  | nil => simp [sizeAll]
  | cons symbol rest ih => simp [sizeAll, ih, Nat.add_assoc]

/-- Visit the symbols that are stacked up, each before those below it. -/
def walkFrom : List Symbol → List Symbol
  | [] => []
  | node entry children :: stack => node entry children :: walkFrom (children ++ stack)
termination_by stack => sizeAll stack
decreasing_by
  simp only [sizeAll_append, sizeAll, size]
  omega

/-- A symbol and all those below it, depth first. -/
def walk (symbol : Symbol) : List Symbol := walkFrom [symbol]

end Symbol

/-! ## Building an outline -/

namespace Outline

/-- The name of a node's symbol. -/
def nameOf (entry : Entry) : String :=
  match entry.role with
  | .field name => name
  | .item number => "[" ++ number.repr ++ "]"
  | .loose => "content"

/-- What a node's symbol shows beside its name: the value of a scalar that has one. -/
def detailOf (config : Config) (entry : Entry) : Option String :=
  if config.scalarSymbolDetail && entry.kind == .scalar then
    entry.value.filter fun value => !value.isEmpty
  else none

/-- The end of a node's symbol. `next` is where the next symbol starts, and `lastChild` where the
last symbol below it ends. -/
def stopOf (totalLines : Nat) (next lastChild : Option Position) (entry : Entry) : Position :=
  let inferred := (entry.span.stop.or (lastChild.or next)).getD ⟨totalLines, 1⟩
  let bounded := match next with
    | some next => if next < inferred then next else inferred
    | none => inferred
  max bounded entry.entryStart

/-- The selected part of a node's symbol that ends at `stop`: the key, or else the part of the node
inside the symbol. -/
def selectionOf (stop : Position) (entry : Entry) : Span :=
  entry.keySpan.getD
    (.closed (max entry.span.start entry.entryStart) (min (entry.span.stop.getD stop) stop))

/-- What a node's symbol says of itself, given where the next symbol starts and those below it. -/
def entryOf (totalLines : Nat) (config : Config) (next : Option Position)
    (children : List Symbol) (entry : Entry) : SymbolEntry :=
  let lastChild := children.getLast?.bind fun symbol => symbol.entry.span.stop
  let stop := stopOf totalLines next lastChild entry
  { name := nameOf entry
    detail := detailOf config entry
    kind := .ofEntry entry
    span := .closed entry.entryStart stop
    selection := selectionOf stop entry }

mutual
/-- The symbols of a draft: its own or, for an error region, those of what is inside. `next` is
where the next symbol starts. -/
def symbolsOf (totalLines : Nat) (config : Config) (next : Option Position) :
    Draft → List Symbol
  | .node entry children =>
    if entry.kind == .error then symbolsAmong totalLines config next children
    else
      let below := symbolsAmong totalLines config (entry.span.stop.or next) children
      [.node (entryOf totalLines config next below entry) below]

/-- The symbols of sibling drafts; `limit` is where the symbol around them ends. -/
def symbolsAmong (totalLines : Nat) (config : Config) (limit : Option Position) :
    List Draft → List Symbol
  | [] => []
  | draft :: rest =>
    let next := (rest.head?.map fun sibling => sibling.entry.entryStart).or limit
    symbolsOf totalLines config next draft ++ symbolsAmong totalLines config limit rest
end

/-- The span of the file's symbol, which reaches the last line of the file. -/
def fileSpan (totalLines : Nat) (span : Span) : Span :=
  let lastLine := max totalLines span.start.line
  let lastColumn := match span.stop with
    | some stop => if stop.line == lastLine then stop.column else 1
    | none => 1
  .closed span.start ⟨lastLine, lastColumn⟩

/-- The outline of a document with `totalLines` lines. -/
def ofDraft (totalLines : Nat) (config : Config) (draft : Draft) : List Symbol :=
  let span := fileSpan totalLines draft.entry.span
  let entry : SymbolEntry :=
    { name := "document", detail := none, kind := .file, span, selection := span }
  [.node entry (symbolsAmong totalLines config span.stop draft.children)]

end Outline

end Blueprint
