import Blueprint.Inspect.Run
import Blueprint.Json.Reader
import Blueprint.ParseTree.Load

/-!
# The command `blueprint-inspect`

Parsing is done beforehand: what the parser made of a document stands beside it, in a file with
the same name and `.parse.json` after it.
-/

set_option autoImplicit false

namespace Blueprint.Inspect

/-- The text of a file, if it can be read. -/
def readFile? (file : FileName) : IO (Option String) := do
  try
    let text ← IO.FS.readFile file
    return some text
  catch _ => return none

/-- The files that a request reads. -/
def Request.files : Request → List FileName
  | .outline file config => file :: config.toList
  | .context file _ _ semanticTree config => file :: (semanticTree.toList ++ config.toList)
  | .version | .help _ => []

/-- The document that a request is about. -/
def Request.document? : Request → Option FileName
  | .outline file _ => some file
  | .context file _ _ _ _ => some file
  | .version | .help _ => none

/-- What the parser made of a document. -/
def readParse? (file : FileName) : IO (Option Parse) := do
  let text ← readFile? (file ++ ".parse.json")
  return text.bind fun text => (Json.parse text).toOption.bind Parse.load

/-- Run the command on the files of the working directory. -/
def runHere (arguments : List String) : IO UInt32 := do
  let request := (Request.ofArguments arguments).toOption
  let names := (request.map Request.files).getD []
  let texts ← names.mapM fun name => do return (name, ← readFile? name)
  let files : Files := fun name => (texts.lookup name).join
  let document := request.bind Request.document?
  let parse ← match document with
    | some file => readParse? file
    | none => pure none
  match document, parse with
  | some file, none =>
    if (files file).isSome then
      IO.eprintln ("Error: Failed to parse " ++ file)
      return 1
  | _, _ => pure ()
  let empty : Parse :=
    { tree := .node ⟨"document", true, false, false, none, 0, 0⟩ [], hasError := false }
  let outcome := run files (fun _ _ => parse.getD empty) arguments
  match outcome with
  | .printed text => IO.print text
  | .failed failure => IO.eprintln ("Error: " ++ failure.message)
  | .misused => IO.eprintln (helpText none)
  return outcome.code.toUInt32

end Blueprint.Inspect

/-- The entry point. -/
def main (arguments : List String) : IO UInt32 := Blueprint.Inspect.runHere arguments
