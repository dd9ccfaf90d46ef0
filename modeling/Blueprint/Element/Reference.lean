import Blueprint.Element.Basic

/-!
# References

What a substitution points at: a namespace, the name of an element in it and the path of the
property that is read. The target itself is not looked for.
-/

set_option autoImplicit false

namespace Blueprint

/-- The part of a blueprint that a reference reads from. -/
inductive Namespace where
  | vars
  | values
  | resources
  | dataSources
  | children
  | elem
deriving DecidableEq, Repr

namespace Namespace

/-- How a namespace is written in a reference. -/
def name : Namespace → String
  | vars => "variables"
  | values => "values"
  | resources => "resources"
  | dataSources => "datasources"
  | children => "children"
  | elem => "elem"

/-- Every namespace. -/
def all : List Namespace := [vars, values, resources, dataSources, children, elem]

/-- The namespace that a reference begins with. -/
def ofName? (text : String) : Option Namespace := all.find? fun space => space.name == text

end Namespace

/-- What a reference points at. -/
structure ReferenceTarget where
  space : Namespace
  /-- The element; references to the element of a template name none. -/
  name : Option String
  /-- The path of the property, item by item. -/
  path : List String
deriving DecidableEq, Repr

/-- What a substitution points at; literals and calls point at nothing. -/
def Substitution.target? : Substitution → Option ReferenceTarget
  | variableRef name => some ⟨.vars, some name, []⟩
  | valueRef name path => some ⟨.values, some name, path.map PathItem.render⟩
  | resourceRef name _ path => some ⟨.resources, some name, path.map PathItem.render⟩
  | dataSourceRef name fieldName _ => some ⟨.dataSources, some name, [fieldName]⟩
  | childRef name path => some ⟨.children, some name, path.map PathItem.render⟩
  | elemRef path => some ⟨.elem, none, path.map PathItem.render⟩
  | elemIndexRef => some ⟨.elem, none, []⟩
  | stringLiteral _ | intLiteral _ | floatLiteral _ | boolLiteral _ | functionCall _ _ => none

/-- What an element points at, also through an argument and through a text that is one
substitution and nothing else. -/
def Element.target? : Element → Option ReferenceTarget
  | substitution inner => inner.target?
  | functionArg argument => argument.value.target?
  | templateText text => text.sole?.bind Substitution.target?
  | _ => none

end Blueprint
