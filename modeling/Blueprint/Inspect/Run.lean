import Blueprint.Config.Reader
import Blueprint.Document
import Blueprint.Inspect.Arguments
import Blueprint.Json.Printer
import Blueprint.Report
import Blueprint.Semantic.Reader

/-!
# Running the command

The command reads its files, does what is asked for and prints JSON. Of several faults the first
counts in this order: the arguments, the settings, the position, the document, the semantic tree.

Files and the parser are given from outside.
-/

set_option autoImplicit false

namespace Blueprint.Inspect

/-- Why the command failed. -/
inductive Failure where
  | unreadableConfig (file : FileName)
  | invalidConfig (file : FileName)
  | positionOutOfRange
  | unreadableDocument (file : FileName)
  | unreadableSemanticTree (file : FileName)
  | invalidSemanticTree (file : FileName)
deriving DecidableEq, Repr

/-- What is said about a failure. -/
def Failure.message : Failure → String
  | unreadableConfig file => "Failed to read config " ++ file
  | invalidConfig file => "Invalid config " ++ file
  | positionOutOfRange => "line and column are 1-based"
  | unreadableDocument file => "Failed to read " ++ file
  | unreadableSemanticTree file => "Failed to read semantic tree " ++ file
  | invalidSemanticTree file => "Invalid semantic tree " ++ file

/-- What the command comes to. -/
inductive Outcome where
  /-- It prints a text. -/
  | printed (text : String)
  | failed (failure : Failure)
  /-- The arguments were not understood. -/
  | misused
deriving DecidableEq, Repr

/-- The exit code of an outcome. -/
def Outcome.code : Outcome → Nat
  | printed _ => 0
  | failed _ => 1
  | misused => 2

/-- The texts of files by name; unreadable files have none. -/
abbrev Files := FileName → Option String

/-- What the command knows itself by. -/
def versionText : String := "blueprint-inspect 0.1.0"

/-- How the command is used. -/
def helpText : Option String → String
  | some "outline" =>
    "Print the document outline as JSON\n\nUsage: blueprint-inspect outline [OPTIONS] <FILE>"
  | some "context" =>
    "Print the cursor context at a position as JSON\n\n" ++
      "Usage: blueprint-inspect context [OPTIONS] --line <LINE> --column <COLUMN> <FILE>"
  | _ =>
    "Inspect blueprint documents as the language server sees them\n\n" ++
      "Usage: blueprint-inspect [OPTIONS] <COMMAND>"

/-- The settings in a file, or the usual ones. -/
def loadConfig (files : Files) : Option FileName → Except Failure Config
  | none => .ok {}
  | some file =>
    match files file with
    | none => .error (.unreadableConfig file)
    | some text => (Config.parse text).mapError fun _ => .invalidConfig file

/-- The parsed document in a file. -/
def loadDocument (files : Files) (parser : Parser) (file : FileName) :
    Except Failure Snapshot :=
  match files file with
  | none => .error (.unreadableDocument file)
  | some content => .ok (.parse parser { location := file, content, version := none })

/-- The semantic tree in a file, if one is given. -/
def loadSemanticTree (files : Files) : Option FileName → Except Failure (Option SemanticTree)
  | none => .ok none
  | some file =>
    match files file with
    | none => .error (.unreadableSemanticTree file)
    | some text =>
      match SemanticTree.parse? text with
      | some tree => .ok (some tree)
      | none => .error (.invalidSemanticTree file)

/-- A printed text ends its line. -/
def line (text : String) : String := text ++ "\n"

/-- Print the outline of a document. -/
def outline (files : Files) (parser : Parser) (file : FileName) (config : Option FileName) :
    Except Failure String := do
  let config ← loadConfig files config
  let snapshot ← loadDocument files parser file
  return line (Json.array (Symbol.toJsonAll (snapshot.outline config))).print

/-- Print what is known about a position of a document. -/
def context (files : Files) (parser : Parser) (file : FileName) (position : Position)
    (semanticTree config : Option FileName) : Except Failure String := do
  let config ← loadConfig files config
  if position.line == 0 || position.column == 0 then .error .positionOutOfRange
  let snapshot ← loadDocument files parser file
  let semantic ← loadSemanticTree files semanticTree
  return line (snapshot.context position semantic config).toJson.print

/-- Do what is asked for. -/
def Request.fulfil (files : Files) (parser : Parser) : Request → Except Failure String
  | .outline file config => Inspect.outline files parser file config
  | .context file row column semanticTree config =>
    Inspect.context files parser file ⟨row, column⟩ semanticTree config
  | .version => .ok (line versionText)
  | .help topic => .ok (line (helpText topic))

/-- Run the command. -/
def run (files : Files) (parser : Parser) (arguments : List String) : Outcome :=
  match Request.ofArguments arguments with
  | .error .misuse => .misused
  | .ok request =>
    match request.fulfil files parser with
    | .ok text => .printed text
    | .error failure => .failed failure

end Blueprint.Inspect
