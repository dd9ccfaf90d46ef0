import Blueprint.Json.Basic

/-!
# Records in JSON

A record is read from an object by the names of its fields, other members being ignored, or
from an array by the order of its fields. In an object a field that may be missing is missing
as no member or, where it is optional, as null. An array has no more items than there are
fields, and it may end early only before fields that have a value of their own to fall back on.

A variant is written as its name, or as an object whose only member has that name.
-/

set_option autoImplicit false

namespace Blueprint.Json

/-- Whether a value can hold a record of `count` fields. -/
def isRecord (count : Nat) : Json → Bool
  | array items => items.length ≤ count
  | object _ => true
  | _ => false

/-- Whether a value is an object. -/
def isObject : Json → Bool
  | object _ => true
  | _ => false

/-- Whether no two members have one of the given names. -/
def fieldsUnique (names : List String) : Json → Bool
  | object members => names.all fun name => (members.countP fun member => member.1 == name) ≤ 1
  | _ => true

/-- The value at a record's field, given by its place in arrays and its name in objects. -/
def fieldAt? (json : Json) (place : Nat) (name : String) : Option Json :=
  match json with
  | array items => items[place]?
  | object members => lastMember? name members
  | _ => none

/-- A field that must be there. -/
def required {Value : Type} (json : Json) (place : Nat) (name : String)
    (read : Json → Option Value) : Option Value :=
  (json.fieldAt? place name).bind read

/-- A field that stands for `otherwise` when it is missing. -/
def withDefault {Value : Type} (json : Json) (place : Nat) (name : String)
    (read : Json → Option Value) (otherwise : Value) : Option Value :=
  match json.fieldAt? place name with
  | some value => read value
  | none => some otherwise

/-- A field that an object may leave out; an array may not end before it. -/
def optional {Value : Type} (json : Json) (place : Nat) (name : String)
    (read : Json → Option Value) : Option (Option Value) :=
  match json.fieldAt? place name with
  | some value => nullable read value
  | none => if json.isObject then some none else none

/-- A field that may be left out of objects and off the end of arrays. -/
def optionalOrEnd {Value : Type} (json : Json) (place : Nat) (name : String)
    (read : Json → Option Value) : Option (Option Value) :=
  json.withDefault place name (nullable read) none

/-- The name of a variant and its content, if any. -/
def variant? : Json → Option (String × Option Json)
  | string name => some (name, none)
  | object members =>
    match sortMembers members with
    | [(name, content)] => some (name, some content)
    | _ => none
  | _ => none

/-- A variant without content: its name alone, or an object with null under the name. -/
def bareVariant? (json : Json) : Option String :=
  match json.variant? with
  | some (name, none) => some name
  | some (name, some null) => some name
  | _ => none

/-! ## Sizes of parts

A part of a value is smaller than the value, which lets readers of nested values recurse. -/

theorem mem_of_mem_insertMember {Value : Type} {member new : String × Value}
    {members : List (String × Value)} (found : member ∈ insertMember new members) :
    member = new ∨ member ∈ members := by
  induction members with
  | nil => simpa [insertMember] using found
  | cons first rest ih =>
    simp only [insertMember] at found
    split at found
    · simpa using found
    · split at found
      · rcases List.mem_cons.mp found with here | later
        · exact .inl here
        · exact .inr (List.mem_cons_of_mem _ later)
      · rcases List.mem_cons.mp found with here | later
        · exact .inr (here ▸ List.mem_cons_self)
        · exact (ih later).imp_right (List.mem_cons_of_mem _)

theorem mem_of_mem_foldl_insertMember {Value : Type} {member : String × Value}
    (members sorted : List (String × Value))
    (found : member ∈ members.foldl (fun sorted new => insertMember new sorted) sorted) :
    member ∈ sorted ∨ member ∈ members := by
  induction members generalizing sorted with
  | nil => exact .inl found
  | cons first rest ih =>
    rcases ih _ found with here | later
    · rcases mem_of_mem_insertMember here with rfl | old
      · exact .inr List.mem_cons_self
      · exact .inl old
    · exact .inr (List.mem_cons_of_mem _ later)

theorem mem_of_mem_sortMembers {Value : Type} {member : String × Value}
    {members : List (String × Value)} (found : member ∈ sortMembers members) :
    member ∈ members := by
  rcases mem_of_mem_foldl_insertMember members [] found with none | some
  · cases none
  · exact some

theorem sizeOf_lt_of_mem_members {name : String} {value : Json} {members : List (String × Json)}
    (found : (name, value) ∈ members) : sizeOf value < sizeOf (object members) := by
  have := List.sizeOf_lt_of_mem found
  simp only [Prod.mk.sizeOf_spec] at this
  simp only [object.sizeOf_spec]
  omega

theorem sizeOf_lt_of_mem_items {value : Json} {items : List Json} (found : value ∈ items) :
    sizeOf value < sizeOf (array items) := by
  have := List.sizeOf_lt_of_mem found
  simp only [array.sizeOf_spec]
  omega

theorem sizeOf_lt_of_fieldAt? {json value : Json} {place : Nat} {name : String}
    (found : json.fieldAt? place name = some value) : sizeOf value < sizeOf json := by
  cases json with
  | array items => exact sizeOf_lt_of_mem_items (List.mem_of_getElem? found)
  | object members =>
    simp only [fieldAt?, lastMember?, Option.map_eq_some_iff] at found
    obtain ⟨member, located, rfl⟩ := found
    exact @sizeOf_lt_of_mem_members member.1 member.2 members
      (List.mem_reverse.mp (List.mem_of_find?_eq_some located))
  | _ => simp [fieldAt?] at found

theorem sizeOf_lt_of_variant? {json content : Json} {name : String}
    (found : json.variant? = some (name, some content)) : sizeOf content < sizeOf json := by
  cases json with
  | object members =>
    simp only [variant?] at found
    split at found
    · rename_i sorted
      simp only [Option.some.injEq, Prod.mk.injEq] at found
      obtain ⟨rfl, rfl⟩ := found
      exact sizeOf_lt_of_mem_members (mem_of_mem_sortMembers (sorted ▸ List.mem_cons_self))
    · cases found
  | _ => simp [variant?] at found

end Blueprint.Json
