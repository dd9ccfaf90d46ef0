import Std.Data.TreeMap
import Blueprint.Cursor.Context
import Blueprint.Fragment.Document
import Blueprint.Symbol

/-!
# Documents and the store

A document is a text under a location. A snapshot is one parse of it. The store keeps the open
documents; each keeps the snapshot of its current text and, besides, the last snapshot since it
was opened that had no errors. A query is answered from the current snapshot if that is clean or
knows a node below the root at the cursor, and otherwise from the last clean one.

Parsing is left to a `Parser`.
-/

set_option autoImplicit false

namespace Blueprint

/-- A parser makes something of every text. -/
abbrev Parser := String → Format → Parse

/-- A document as an editor sees it. -/
structure Document where
  location : String
  content : String
  version : Option Int
deriving DecidableEq, Repr

/-- The format of a document, told by its location. -/
def Document.format (document : Document) : Format := .ofLocation document.location

/-- The last part of a document's location. -/
def Document.fileName (document : Document) : String := fileNameOf document.location

/-- One parse of a document. -/
structure Snapshot where
  document : Document
  lookup : Lookup

namespace Snapshot

/-- Parse a document. -/
def parse (parser : Parser) (document : Document) : Snapshot :=
  let parsed := parser document.content document.format
  { document, lookup := .build (.ofParse document.content document.format parsed) }

/-- The document tree. -/
def tree (snapshot : Snapshot) : Tree := snapshot.lookup.tree

/-- The number of lines of the text. -/
def totalLines (snapshot : Snapshot) : Nat := Text.lineCount snapshot.document.content.toList

/-- Whether the text did not parse cleanly. -/
def hasErrors (snapshot : Snapshot) : Bool := snapshot.tree.hasErrors

/-- What is known about a position, given the text to look at. -/
def contextIn (snapshot : Snapshot) (content : String) (position : Position)
    (semantic : Option SemanticTree) (config : Config) : Context :=
  .build snapshot.lookup content.toList position snapshot.document.format semantic config

/-- What is known about a position of the snapshot's own text. -/
def context (snapshot : Snapshot) (position : Position) (semantic : Option SemanticTree)
    (config : Config) : Context :=
  snapshot.contextIn snapshot.document.content position semantic config

/-- Whether a position has a node below the root. -/
def resolves (snapshot : Snapshot) (position : Position) (config : Config) : Bool :=
  (snapshot.context position none config).node.any fun node => !node.isRoot

/-- The outline of the document. -/
def outline (snapshot : Snapshot) (config : Config) : List Symbol :=
  Outline.ofDraft snapshot.totalLines config snapshot.tree.draft

end Snapshot

/-- An open document. -/
structure OpenDocument where
  document : Document
  /-- The snapshot of the current text. -/
  current : Snapshot
  /-- The last snapshot without errors since the document was opened. -/
  lastGood : Option Snapshot

namespace OpenDocument

/-- The document with a new text, parsed; `lastGood` is the last clean snapshot so far. -/
def refresh (parser : Parser) (document : Document) (lastGood : Option Snapshot) :
    OpenDocument :=
  let current := Snapshot.parse parser document
  { document, current, lastGood := if current.hasErrors then lastGood else some current }

end OpenDocument

/-- The snapshot to answer a query with. -/
structure Query where
  snapshot : Snapshot
  /-- The current text, which may be newer than the snapshot. -/
  content : String
  /-- Whether the snapshot is older than the text. -/
  stale : Bool

/-- What is known about a position: the tree's part from the snapshot, the text's from the current
text. -/
def Query.context (query : Query) (position : Position) (semantic : Option SemanticTree)
    (config : Config) : Context :=
  { query.snapshot.contextIn query.content position semantic config with stale := query.stale }

/-- The snapshot that answers a query at a position of an open document. -/
def OpenDocument.query (opened : OpenDocument) (position : Position) (config : Config) : Query :=
  let content := opened.document.content
  if !opened.current.hasErrors || opened.current.resolves position config then
    { snapshot := opened.current, content, stale := false }
  else match opened.lastGood with
    | some good => { snapshot := good, content, stale := true }
    | none => { snapshot := opened.current, content, stale := false }

/-- Why a step of the store was refused. -/
inductive StoreError where
  | unknownDocument (location : String)
deriving DecidableEq, Repr

/-- What is said about a refused step. -/
def StoreError.message : StoreError → String
  | unknownDocument location => "document not open: " ++ location

/-- The open documents by location. -/
structure Store where
  documents : Std.TreeMap String OpenDocument

namespace Store

/-- No document is open. -/
def empty : Store := ⟨∅⟩

/-- The open document at a location. -/
def find? (store : Store) (location : String) : Option OpenDocument := store.documents[location]?

/-- Open a document, or open it anew. -/
def openDocument (store : Store) (parser : Parser) (location content : String) (version : Int) :
    Store :=
  let document : Document := { location, content, version := some version }
  ⟨store.documents.insert location (.refresh parser document none)⟩

/-- Give an open document a new text. -/
def changeDocument (store : Store) (parser : Parser) (location content : String)
    (version : Int) : Except StoreError Store :=
  match store.find? location with
  | none => .error (.unknownDocument location)
  | some opened =>
    let document := { opened.document with content, version := some version }
    .ok ⟨store.documents.insert location (.refresh parser document opened.lastGood)⟩

/-- Close a document. -/
def closeDocument (store : Store) (location : String) : Store :=
  ⟨store.documents.erase location⟩

/-- Whether a document is open. -/
def contains (store : Store) (location : String) : Bool := store.documents.contains location

/-- The locations of the open documents, in order. -/
def locations (store : Store) : List String := store.documents.keys

/-- The number of open documents. -/
def size (store : Store) : Nat := store.documents.size

/-- The open document at a location, as the editor sees it. -/
def document? (store : Store) (location : String) : Option Document :=
  (store.find? location).map OpenDocument.document

/-- The snapshot of the current text of a document. -/
def snapshot? (store : Store) (location : String) : Option Snapshot :=
  (store.find? location).map OpenDocument.current

/-- The snapshot that answers a query at a position. -/
def query? (store : Store) (location : String) (position : Position) (config : Config) :
    Option Query :=
  (store.find? location).map fun opened => opened.query position config

end Store

end Blueprint
