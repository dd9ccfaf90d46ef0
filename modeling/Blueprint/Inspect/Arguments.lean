/-!
# Arguments of the command line

The command `blueprint-inspect` has two subcommands. `outline` takes a file; `context` takes a
file, a line and a column and maybe a semantic tree. Settings are given by `--config`, before or
after the name of the subcommand, and the later one counts.

The value of an option is the rest of its argument after `=`, or the next argument, which then
may not look like an option. After `--` every argument is taken for a file.
-/

set_option autoImplicit false

namespace Blueprint.Inspect

/-- A file name, which is never empty. -/
abbrev FileName := String

/-- What the command is to do. -/
inductive Request where
  | outline (file : FileName) (config : Option FileName)
  | context (file : FileName) (line column : Nat) (semanticTree config : Option FileName)
  | version
  | help (topic : Option String)
deriving DecidableEq, Repr

/-- What the arguments of a subcommand have told so far. -/
structure Given where
  file : Option FileName := none
  line : Option Nat := none
  column : Option Nat := none
  semanticTree : Option FileName := none
  config : Option FileName := none

/-- An argument that is not understood, or the lack of one that is needed. -/
inductive Misuse where
  | misuse
deriving DecidableEq, Repr

/-- An argument by its look. -/
inductive Argument where
  /-- Two dashes: only files follow. -/
  | escape
  /-- A long option, with its value if that is attached. -/
  | long (name : String) (value : Option String)
  /-- Short options, in a row. -/
  | short (letters : List Char)
  | plain (text : String)

/-- Tell an argument by its look; a lone dash is plain. -/
def Argument.ofText (text : String) : Argument :=
  match text.toList with
  | ['-', '-'] => escape
  | '-' :: '-' :: rest =>
    let name := rest.takeWhile (· != '=')
    let value := (rest.drop name.length).tail?
    long (String.ofList name) (value.map String.ofList)
  | '-' :: letter :: rest => short (letter :: rest)
  | _ => plain text

/-- The value of an option that has none attached: the next argument, if it looks like no option. -/
def nextValue : List String → Except Misuse (String × List String)
  | [] => .error .misuse
  | text :: rest =>
    match Argument.ofText text with
    | .plain value => .ok (value, rest)
    | _ => .error .misuse

/-- The value of an option and the arguments after it. -/
def optionValue (attached : Option String) (rest : List String) :
    Except Misuse (String × List String) :=
  match attached with
  | some value => .ok (value, rest)
  | none => nextValue rest

/-- A file name is any text but the empty one. -/
def fileName (text : String) : Except Misuse FileName :=
  if text.isEmpty then .error .misuse else .ok text

/-- A number is written in digits, maybe after a sign. -/
def number? (text : String) : Option Int :=
  let digits? (digits : List Char) : Option Nat :=
    if digits.isEmpty || !digits.all Char.isDigit then none
    else some (digits.foldl (fun value digit => value * 10 + (digit.toNat - 48)) 0)
  match text.toList with
  | '-' :: digits => (digits? digits).map fun value => -value
  | '+' :: digits => (digits? digits).map fun value => value
  | digits => (digits? digits).map fun value => value

/-- A line or a column has at most 32 bits. -/
def coordinate (text : String) : Except Misuse Nat :=
  match number? text with
  | some value => if 0 ≤ value && value ≤ 4294967295 then .ok value.toNat else .error .misuse
  | none => .error .misuse

/-- Set what may be given only once. -/
def setOnce {Value : Type} (old : Option Value) (value : Value) : Except Misuse (Option Value) :=
  if old.isSome then .error .misuse else .ok (some value)

/-- What a step through the arguments leads to: more arguments, or a request for help. -/
inductive Step where
  | go (given : Given) (rest : List String)
  | help

/-- Take a long option of a subcommand; `context` has options of its own. -/
def takeLong (isContext : Bool) (given : Given) (name : String) (attached : Option String)
    (rest : List String) : Except Misuse Step :=
  if name == "help" then if attached.isNone then .ok .help else .error .misuse
  else if name == "config" then do
    let (text, rest) ← optionValue attached rest
    let config ← setOnce given.config (← fileName text)
    return .go { given with config } rest
  else if !isContext then .error .misuse
  else if name == "line" then do
    let (text, rest) ← optionValue attached rest
    let line ← setOnce given.line (← coordinate text)
    return .go { given with line } rest
  else if name == "column" then do
    let (text, rest) ← optionValue attached rest
    let column ← setOnce given.column (← coordinate text)
    return .go { given with column } rest
  else if name == "semantic-tree" then do
    let (text, rest) ← optionValue attached rest
    let semanticTree ← setOnce given.semanticTree (← fileName text)
    return .go { given with semanticTree } rest
  else .error .misuse

/-- Take a file. -/
def takeFile (given : Given) (text : String) : Except Misuse Given := do
  let file ← setOnce given.file (← fileName text)
  return { given with file }

/-- Take arguments after two dashes. -/
def takeFiles (given : Given) : List String → Except Misuse Given
  | [] => .ok given
  | text :: rest => do
    let given ← takeFile given text
    takeFiles given rest

/-- Take the arguments of a subcommand; `fuel` is at least their number. Nothing is returned when
help is asked for. -/
def takeAll (isContext : Bool) (fuel : Nat) (given : Given) (arguments : List String) :
    Except Misuse (Option Given) :=
  match fuel, arguments with
  | _, [] => .ok (some given)
  | 0, _ => .error .misuse
  | fuel + 1, text :: rest =>
    match Argument.ofText text with
    | .escape => (takeFiles given rest).map some
    | .plain file => do
      let given ← takeFile given file
      takeAll isContext fuel given rest
    | .short letters => if letters.head? == some 'h' then .ok none else .error .misuse
    | .long name attached => do
      match ← takeLong isContext given name attached rest with
      | .help => return none
      | .go given rest => takeAll isContext fuel given rest

/-- The request of a subcommand; a setting given with it counts for more than `config`. -/
def subcommand (name : String) (config : Option FileName) (arguments : List String) :
    Except Misuse Request := do
  match ← takeAll (name == "context") arguments.length {} arguments with
  | none => return .help (some name)
  | some given =>
    let config := given.config.or config
    let some file := given.file | .error .misuse
    if name == "outline" then return .outline file config
    else
      let some line := given.line | .error .misuse
      let some column := given.column | .error .misuse
      return .context file line column given.semanticTree config

/-- The request to explain the command or one of its subcommands. -/
def helpTopic : List String → Except Misuse Request
  | [] => .ok (.help none)
  | [topic] =>
    if topic == "outline" || topic == "context" then .ok (.help (some topic))
    else if topic == "help" then .ok (.help none)
    else .error .misuse
  | _ => .error .misuse

/-- Take the arguments before the name of the subcommand. -/
def takeCommand (fuel : Nat) (config : Option FileName) (arguments : List String) :
    Except Misuse Request :=
  match fuel, arguments with
  | _, [] => .error .misuse
  | 0, _ => .error .misuse
  | fuel + 1, text :: rest =>
    match Argument.ofText text with
    | .escape => .error .misuse
    | .short letters =>
      if letters.head? == some 'h' then .ok (.help none)
      else if letters.head? == some 'V' then .ok .version
      else .error .misuse
    | .long name attached =>
      if name == "help" && attached.isNone then .ok (.help none)
      else if name == "version" && attached.isNone then .ok .version
      else if name == "config" then do
        let (text, rest) ← optionValue attached rest
        let config ← setOnce config (← fileName text)
        takeCommand fuel config rest
      else .error .misuse
    | .plain name =>
      if name == "outline" || name == "context" then subcommand name config rest
      else if name == "help" then helpTopic rest
      else .error .misuse

/-- The request that arguments make. -/
def Request.ofArguments (arguments : List String) : Except Misuse Request :=
  takeCommand arguments.length none arguments

end Blueprint.Inspect
