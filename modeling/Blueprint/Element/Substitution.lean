import Blueprint.Json.Basic

/-!
# Substitutions

The expressions between `$` braces: literals, references to other parts of a blueprint and
calls of functions. Where a text may hold substitutions it is a list of plain strings and
substitutions in turn.
-/

set_option autoImplicit false

namespace Blueprint

/-- One step of a property path such as `.spec.tags[0]`. -/
inductive PathItem where
  | field (name : String)
  | index (number : Int)
deriving DecidableEq, Repr

/-- A field is written as its name, an index in brackets. -/
def PathItem.render : PathItem → String
  | field name => name
  | index number => "[" ++ toString number ++ "]"

mutual
/-- The content of a substitution. -/
inductive Substitution where
  | stringLiteral (value : String)
  | intLiteral (value : Int)
  | floatLiteral (value : Decimal)
  | boolLiteral (value : Bool)
  /-- A variable, by name. -/
  | variableRef (name : String)
  /-- A value, and what is read from it. -/
  | valueRef (name : String) (path : List PathItem)
  /-- A property of a resource, or of one of the resources made from its template. -/
  | resourceRef (resourceName : String) (eachTemplateIndex : Option Int)
      (path : List PathItem)
  /-- An exported field of a data source, or one element of it. -/
  | dataSourceRef (dataSourceName fieldName : String) (primitiveIndex : Option Int)
  /-- An export of a child blueprint. -/
  | childRef (childName : String) (path : List PathItem)
  /-- The element that a template is applied to. -/
  | elemRef (path : List PathItem)
  /-- The index of that element. -/
  | elemIndexRef
  | functionCall (name : String) (arguments : List FunctionArg)
deriving Repr

/-- An argument of a function call, given by its place or by name. -/
inductive FunctionArg where
  | mk (name : Option String) (value : Substitution)
deriving Repr
end

namespace FunctionArg

/-- The name under which an argument is given. -/
def name : FunctionArg → Option String
  | mk name _ => name

/-- What an argument stands for. -/
def value : FunctionArg → Substitution
  | mk _ value => value

end FunctionArg

/-- A piece of a text with substitutions. -/
inductive TextPiece where
  | string (value : String)
  | substitution (value : Substitution)
deriving Repr

/-- A text that may hold substitutions. -/
structure TemplateText where
  pieces : List TextPiece
deriving Repr

/-- The substitution of a text that is one substitution and nothing else. -/
def TemplateText.sole? (text : TemplateText) : Option Substitution :=
  match text.pieces with
  | [.substitution value] => some value
  | _ => none

/-- Free content, such as a resource's specification. -/
inductive Content where
  | scalar (value : Json)
  | fields (members : List (String × Content))
  | items (items : List Content)
  | substitutions (text : TemplateText)
deriving Repr

end Blueprint
