/-!
# Formats of documents

A blueprint is written in YAML or in JSON with comments, and the end of its name tells which.
-/

set_option autoImplicit false

namespace Blueprint

/-- The notation of a document. -/
inductive Format where
  | yaml
  /-- JSON with comments. -/
  | jsonc
deriving DecidableEq, Repr

namespace Format

/-- The name of a format. -/
def name : Format → String
  | yaml => "yaml"
  | jsonc => "jsonc"

/-- The name of a format as it is shown. -/
def title : Format → String
  | yaml => "YAML"
  | jsonc => "JSONC"

/-- The format of a name. -/
def ofName? (text : String) : Option Format := [yaml, jsonc].find? fun format => format.name == text

/-- The format of a document at a location: YAML unless the location ends in `.json` or `.jsonc`,
in whichever case its letters are. -/
def ofLocation (location : String) : Format :=
  let letters := location.toList.map Char.toLower
  if ".jsonc".toList.isSuffixOf letters || ".json".toList.isSuffixOf letters then jsonc else yaml

end Format

/-- The part of a location after its last slash or backslash. -/
def fileNameOf (location : String) : String :=
  String.ofList
    (location.toList.reverse.takeWhile fun char => char != '/' && char != '\\').reverse

end Blueprint
