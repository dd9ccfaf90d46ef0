import Blueprint.Draft
import Blueprint.ParseTree.Basic
import Blueprint.Text.Lines

/-!
# Fragments of a draft

What a node of a parse tree amounts to before its place in the document is known: a finished
draft, an entry that waits for its mapping, an item that waits for its sequence, the type of a
scalar, a piece of punctuation, or nothing.

Fragments are put together in the same way for every format. An entry or item without content
gets a placeholder right where its content would begin. Error regions are never thrown away:
a container keeps them among its children, and a wrapper hands them on below its content.
-/

set_option autoImplicit false

namespace Blueprint

/-- A mapping's entry that has not been attached yet. -/
structure Pair where
  /-- The key and its span. -/
  key : Option (String × Span)
  value : Option Draft
  span : Span

/-- The value of an entry, in its role; an entry without a value gets a placeholder at its end. -/
def Pair.toField (pair : Pair) : Draft :=
  let value := pair.value.getD (.missing (.openAt pair.span.stopOrStart))
  match pair.key with
  | some (name, keySpan) => value.asField name (some keySpan)
  | none => value

/-- The mapping that has just this entry. -/
def Pair.toMapping (pair : Pair) : Draft := .node (.ofKind .mapping pair.span) [pair.toField]

/-- What a node of a parse tree amounts to. -/
inductive Fragment where
  | node (draft : Draft)
  | pair (entry : Pair)
  /-- An item of a block sequence; it has no content when nothing follows the dash. -/
  | item (content : Option Draft) (span : Span)
  /-- The type of a plain scalar. -/
  | tag (type : ScalarType)
  /-- Punctuation, by the parser's kind. -/
  | token (kind : String)
  | skip

namespace Fragment

/-- The draft of a finished fragment. -/
def draft? : Fragment → Option Draft
  | node draft => some draft
  | _ => none

/-- The scalar type that a fragment tells. -/
def tag? : Fragment → Option ScalarType
  | tag type => some type
  | _ => none

/-- Whether a fragment is the punctuation between a key and its value. -/
def isColon : Fragment → Bool
  | token kind => kind == ":"
  | _ => false

end Fragment

namespace Pair

/-- The pair with one more child taken in: a later key or value replaces an earlier one, and an
error region stands in for a value that is not there. -/
def take (pair : Pair) (child : Visited Fragment) : Pair :=
  match child.field, child.result with
  | some field, .node draft =>
    if field == "key" then
      { pair with key := some (draft.entry.value.getD "", draft.entry.span) }
    else if field == "value" then { pair with value := some draft }
    else pair
  | none, .node draft =>
    if draft.entry.isError && pair.value.isNone then { pair with value := some draft } else pair
  | _, _ => pair

/-- The pair that a node's children make. -/
def ofChildren (span : Span) (children : List (Visited Fragment)) : Pair :=
  children.foldl take ⟨none, none, span⟩

end Pair

namespace Fragment

/-- The content of an item, or a placeholder at its end. -/
def itemContent (content : Option Draft) (span : Span) : Draft :=
  content.getD (.missing (.openAt span.stopOrStart))

/-- A scalar as a key without a value: a placeholder right after it, under its text. -/
def loneKey (draft : Draft) : Draft :=
  (Draft.missing (.openAt draft.entry.span.stopOrStart)).asField
    (draft.entry.value.getD "") (some draft.entry.span)

/-- A scalar as a key whose value could not be made out. -/
def danglingKey (draft : Draft) : Draft :=
  draft.mapEntry fun entry =>
    { entry with
      kind := .key
      scalarType := none
      keySpan := some entry.span
      role := .field (entry.value.getD "") }

/-- The child that a fragment adds to a mapping. -/
def mappingChild? : Fragment → Option Draft
  | pair entry => some entry.toField
  | node draft =>
    if draft.entry.isError then some draft
    else if draft.entry.kind == .scalar then some (loneKey draft)
    else some draft
  | _ => none

/-- A mapping made of a node's children. -/
def mapping (span : Span) (kind : String) (children : List (Visited Fragment)) : Draft :=
  .node { Entry.ofKind .mapping span with concreteKind := some kind }
    (children.filterMap fun child => child.result.mappingChild?)

/-- The children of a sequence from the item `number` on; error regions are not counted. -/
def itemsFrom (number : Nat) : List (Visited Fragment) → List Draft
  | [] => []
  | child :: rest =>
    match child.result with
    | node draft =>
      if draft.entry.isError then draft :: itemsFrom number rest
      else draft.asItem number :: itemsFrom (number + 1) rest
    | item content span =>
      (itemContent content span).asItem number :: itemsFrom (number + 1) rest
    | pair entry => entry.toMapping.asItem number :: itemsFrom (number + 1) rest
    | _ => itemsFrom number rest

/-- A sequence made of a node's children. -/
def sequence (span : Span) (kind : String) (children : List (Visited Fragment)) : Draft :=
  .node { Entry.ofKind .sequence span with concreteKind := some kind } (itemsFrom 0 children)

/-- The children of an error region, its items counted from `number` on. A scalar right before a
colon is a key whose value could not be made out, so that its name still shows in paths. -/
def remainsFrom (number : Nat) : List (Visited Fragment) → List Draft
  | [] => []
  | child :: rest =>
    match child.result with
    | pair entry => entry.toField :: remainsFrom number rest
    | item content span =>
      (itemContent content span).asItem number :: remainsFrom (number + 1) rest
    | node draft =>
      let keyed := rest.head?.any fun next => next.result.isColon
      let kept := if keyed && draft.entry.kind == .scalar then danglingKey draft else draft
      kept :: remainsFrom number rest
    | _ => remainsFrom number rest

/-- A region that the parser could not make sense of, with what is recognisable in it. -/
def errorRegion (span : Span) (children : List (Visited Fragment)) : Draft :=
  .node (.ofKind .error span) (remainsFrom 0 children)

/-- The content of a wrapper: its first draft that is no error, or else its first draft. The other
error regions go below it, so that they can still be found. -/
def collapse (children : List (Visited Fragment)) : Fragment :=
  let drafts := children.filterMap fun child => child.result.draft?
  match drafts with
  | [] => skip
  | first :: rest =>
    match drafts.find? fun draft => !draft.entry.isError with
    | some content => node (content.append (drafts.filter fun draft => draft.entry.isError))
    | none => node (first.append rest)

end Fragment

/-! ## Reading the source -/

/-- The span of a parse node. -/
def ParseNode.spanIn (node : ParseNode) (source : Text.LineTable) : Span :=
  .closed (source.position (Text.pointAt source.text node.start))
    (source.position (Text.pointAt source.text node.stop))

/-- The text of a parse node; offsets that do not fit the source give no text. -/
def ParseNode.textIn (node : ParseNode) (source : Text.LineTable) : List Char :=
  (Text.slice? source.text node.start node.stop).getD []

/-- A text without one quote at its start and one at its end. -/
def Text.unquote (quote : Char) (text : List Char) : List Char :=
  let inner := if text.head? == some quote then text.tail else text
  if inner.getLast? == some quote then inner.dropLast else inner

end Blueprint
