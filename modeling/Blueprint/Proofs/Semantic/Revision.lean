import Blueprint.Proofs.Semantic.Restoring

/-!
# Elements and the rest of a semantic tree

The element of a node is read apart from all else that the node says. Let the nodes of a semantic
tree in JSON be objects, and let any of their elements be taken away or give way to any JSON value
at all (`Revision`, `reviseJson`). The tree is loaded as before, with the same nodes saying the same
about themselves, and only the elements that were revised are others
(`SemanticTree.loads_with_any_elements`): what cannot be loaded as an element is the unknown one, in
its own place and nowhere else.

Nodes are told apart by their addresses, and a plan says what is done at each address. The revised
form is loaded as the tree to which the same is done (`load_reviseJson`), and the node at an
address of that tree is the node at this address with the rest of the plan carried out on it
(`at?_revise`).
-/

set_option autoImplicit false

namespace Blueprint

/-! ## Members of one name -/

namespace Json

/-- The members with a name, in order. -/
def named (name : String) (members : List (String × Json)) : List (String × Json) :=
  members.filter fun member => member.1 == name

theorem lastMember?_eq_named (name : String) (members : List (String × Json)) :
    lastMember? name members = (named name members).getLast?.map Prod.snd := by
  rw [lastMember?, named, List.getLast?_eq_head?_reverse, ← List.filter_reverse,
    List.head?_filter]

theorem fieldsUnique_object (names : List String) (members : List (String × Json)) :
    (object members).fieldsUnique names = true ↔
      ∀ name ∈ names, (named name members).length ≤ 1 := by
  simp only [fieldsUnique, List.all_eq_true, decide_eq_true_eq, List.countP_eq_length_filter, named]

end Json

namespace SemanticTree

open Json

/-! ## Revising elements -/

/-- Where a node stands: the numbers of the children on the way to it. -/
abbrev Address := List Nat

/-- What is done to the element of a node. -/
inductive Revision where
  | kept
  | removed
  /-- A value is put for the element, before the member numbered `place` of the others. -/
  | put (value : Json) (place : Nat)

/-- The members of a node's object after the revision of its element. -/
def Revision.onMembers (revision : Revision) (members : List (String × Json)) :
    List (String × Json) :=
  let others := members.filter fun member => member.1 != "element"
  match revision with
  | kept => members
  | removed => others
  | put value place => others.take place ++ ("element", value) :: others.drop place

mutual
/-- A semantic tree in JSON with the elements of its nodes revised, as planned for their
addresses. -/
def reviseJson (plan : Address → Revision) : Json → Json
  | .object members => .object ((plan []).onMembers (reviseMembers plan members))
  | other => other

/-- The members of a node's object with its children revised. -/
def reviseMembers (plan : Address → Revision) : List (String × Json) → List (String × Json)
  | [] => []
  | (name, value) :: rest =>
    (name, if name == "children" then reviseChildren plan value else value) ::
      reviseMembers plan rest

/-- The children of a node, revised. -/
def reviseChildren (plan : Address → Revision) : Json → Json
  | .array items => .array (reviseItems plan 0 items)
  | other => other

/-- The children from the one numbered `first` on, revised. -/
def reviseItems (plan : Address → Revision) (first : Nat) : List Json → List Json
  | [] => []
  | item :: rest =>
    reviseJson (fun below => plan (first :: below)) item :: reviseItems plan (first + 1) rest
end

/-- The nodes of a semantic tree in JSON are objects. -/
inductive HasObjectNodes : Json → Prop where
  | object {members : List (String × Json)}
      (below : ∀ items, lastMember? "children" members = some (.array items) →
        ∀ item ∈ items, HasObjectNodes item) :
      HasObjectNodes (.object members)

/-! ## The same in the tree -/

/-- The part of a tree at an address. -/
def at? : SemanticTree → Address → Option SemanticTree
  | tree, [] => some tree
  | node _ children, index :: below => children[index]?.bind fun child => child.at? below

/-- What a node says of itself but for its element: its label, path and span, and how many children
it has. -/
def outline (tree : SemanticTree) : String × String × Span × Nat :=
  (tree.entry.label, tree.entry.path, tree.entry.span, tree.children.length)

/-- The element of a node after a revision. -/
def Revision.onElement : Revision → Option Element → Option Element
  | kept, element => element
  | removed, _ => none
  | put value _, _ => loadElement value

/-- What the element of a node, `before` its revision, is afterwards. -/
inductive Revision.Outcome (before : Option Element) : Revision → Option Element → Prop where
  | kept : Outcome before .kept before
  | removed : Outcome before .removed none
  | null (place : Nat) : Outcome before (.put .null place) none
  | loaded {value : Json} {element : Element} (place : Nat) (solid : value ≠ .null)
      (loads : Element.load value = some element) : Outcome before (.put value place) (some element)
  | unknown {value : Json} (place : Nat) (solid : value ≠ .null)
      (fails : Element.load value = none) : Outcome before (.put value place) (some .unknown)

theorem Revision.outcome_onElement (revision : Revision) (before : Option Element) :
    Outcome before revision (revision.onElement before) := by
  match revision with
  | .kept => exact .kept
  | .removed => exact .removed
  | .put value place =>
      by_cases null : value = .null
      · subst null
        exact .null place
      · rw [onElement, loadElement_of_ne_null null]
        cases loads : Element.load value with
        | none => exact .unknown place null loads
        | some element => exact .loaded place null loads

mutual
/-- A tree with the elements of its nodes revised. -/
def revise (plan : Address → Revision) : SemanticTree → SemanticTree
  | node entry children =>
    node { entry with element := (plan []).onElement entry.element } (reviseAmong plan 0 children)

/-- The children from the one numbered `first` on, revised. -/
def reviseAmong (plan : Address → Revision) (first : Nat) : List SemanticTree → List SemanticTree
  | [] => []
  | tree :: rest =>
    revise (fun below => plan (first :: below)) tree :: reviseAmong plan (first + 1) rest
end

theorem getElem?_reviseAmong (plan : Address → Revision) (first index : Nat)
    (trees : List SemanticTree) :
    (reviseAmong plan first trees)[index]? =
      trees[index]?.map (revise fun below => plan ((first + index) :: below)) := by
  induction trees generalizing first index with
  | nil => rfl
  | cons tree rest ih =>
      cases index with
      | zero => rfl
      | succ index =>
          rw [reviseAmong, List.getElem?_cons_succ, List.getElem?_cons_succ, ih,
            Nat.succ_add_eq_add_succ]

theorem length_reviseAmong (plan : Address → Revision) (first : Nat) (trees : List SemanticTree) :
    (reviseAmong plan first trees).length = trees.length := by
  induction trees generalizing first with
  | nil => rfl
  | cons tree rest ih => rw [reviseAmong, List.length_cons, List.length_cons, ih]

theorem outline_revise (plan : Address → Revision) (tree : SemanticTree) :
    (tree.revise plan).outline = tree.outline := by
  obtain ⟨entry, children⟩ := tree
  simp only [outline, revise, SemanticTree.entry, SemanticTree.children, length_reviseAmong]

theorem element_revise (plan : Address → Revision) (tree : SemanticTree) :
    (tree.revise plan).entry.element = (plan []).onElement tree.entry.element := by
  obtain ⟨entry, children⟩ := tree
  rw [revise]
  rfl

/-- The node at an address of a revised tree is the node there, revised by what is planned below. -/
theorem at?_revise (plan : Address → Revision) (tree : SemanticTree) (address : Address) :
    (tree.revise plan).at? address =
      (tree.at? address).map (revise fun below => plan (address ++ below)) := by
  induction address generalizing plan tree with
  | nil => rfl
  | cons index rest ih =>
      obtain ⟨entry, children⟩ := tree
      rw [revise, at?, at?, getElem?_reviseAmong, Nat.zero_add]
      cases children[index]? with
      | none => rfl
      | some child => exact ih _ child

/-! ## The members of a revised node -/

section Members

variable (plan : Address → Revision) (revision : Revision) (members : List (String × Json))

theorem named_reviseMembers (name : String) :
    named name (reviseMembers plan members) = (named name members).map fun member =>
      (member.1, if member.1 == "children" then reviseChildren plan member.2 else member.2) := by
  induction members with
  | nil => rfl
  | cons member rest ih =>
      obtain ⟨key, value⟩ := member
      rw [named] at ih
      simp only [named, reviseMembers, List.filter_cons, ih]
      cases key == name <;> rfl

/-- Members keep their names when the children are revised. -/
theorem lastMember?_reviseMembers (name : String) :
    lastMember? name (reviseMembers plan members) = (lastMember? name members).map fun value =>
      if name == "children" then reviseChildren plan value else value := by
  rw [lastMember?_eq_named, lastMember?_eq_named, named_reviseMembers, List.getLast?_map,
    Option.map_map, Option.map_map]
  cases last : (named name members).getLast? with
  | none => rfl
  | some member =>
      obtain ⟨-, same⟩ := List.mem_filter.mp (List.mem_of_getLast? last)
      rw [beq_iff_eq] at same
      simp [same]

theorem fieldsUnique_reviseMembers (names : List String) :
    (Json.object (reviseMembers plan members)).fieldsUnique names = true ↔
      (Json.object members).fieldsUnique names = true := by
  simp only [fieldsUnique_object, named_reviseMembers, List.length_map]

/-- Members of other names are out of reach of a revision. -/
theorem named_onMembers_of_ne {name : String} (other : name ≠ "element") :
    named name (revision.onMembers members) = named name members := by
  have untouched : named name (members.filter fun member => member.1 != "element") =
      named name members := by
    rw [named, List.filter_filter]
    apply List.filter_congr
    intro member _
    by_cases same : member.1 = name
    · simp [same, other]
    · simp [same]
  cases revision with
  | kept => rfl
  | removed => exact untouched
  | put value place =>
      rw [← untouched, named, Revision.onMembers, List.filter_append,
        List.filter_cons_of_neg (by simpa using other.symm), ← List.filter_append,
        List.take_append_drop, named]

theorem named_element_onMembers :
    named "element" (revision.onMembers members) = match revision with
      | .kept => named "element" members
      | .removed => []
      | .put value _ => [("element", value)] := by
  have none_left (part : List (String × Json))
      (among : part <:+: members.filter fun member => member.1 != "element") :
      part.filter (fun member => member.1 == "element") = [] := by
    rw [List.filter_eq_nil_iff]
    intro member found
    have kept := (List.mem_filter.mp (among.subset found)).2
    simpa using kept
  cases revision with
  | kept => rfl
  | removed => exact none_left _ List.infix_rfl
  | put value place =>
      rw [named, Revision.onMembers, List.filter_append, List.filter_cons_of_pos rfl,
        none_left _ (List.take_prefix _ _).isInfix, none_left _ (List.drop_suffix _ _).isInfix]
      rfl

theorem loadElement_onMembers :
    (lastMember? "element" (revision.onMembers members)).bind loadElement =
      revision.onElement ((lastMember? "element" members).bind loadElement) := by
  rw [lastMember?_eq_named, named_element_onMembers]
  cases revision with
  | kept => rw [← lastMember?_eq_named]; rfl
  | removed => rfl
  | put value place => rfl

theorem fieldsUnique_onMembers (unique : (Json.object members).fieldsUnique fieldNames = true) :
    (Json.object (revision.onMembers members)).fieldsUnique fieldNames = true := by
  rw [fieldsUnique_object] at unique ⊢
  intro name isField
  have before := unique name isField
  by_cases isElement : name = "element"
  · subst isElement
    rw [named_element_onMembers]
    cases revision with
    | kept => exact before
    | removed => exact Nat.zero_le 1
    | put value place => exact Nat.le_refl 1
  · rwa [named_onMembers_of_ne _ _ isElement]

/-- The last member with a name in a revised node, the element apart. -/
theorem lastMember?_revised {name : String} (notElement : name ≠ "element") :
    lastMember? name ((plan []).onMembers (reviseMembers plan members)) =
      (lastMember? name members).map fun value =>
        if name == "children" then reviseChildren plan value else value := by
  rw [lastMember?_eq_named, named_onMembers_of_ne _ _ notElement, ← lastMember?_eq_named,
    lastMember?_reviseMembers]

/-- The fields of a revised node that are neither its element nor its children are read as
before. -/
theorem required_revised {Value : Type} (read : Json → Option Value) (place : Nat) {name : String}
    (notElement : name ≠ "element") (notChildren : name ≠ "children") :
    (Json.object ((plan []).onMembers (reviseMembers plan members))).required place name read =
      (Json.object members).required place name read := by
  rw [required, fieldAt?_object, lastMember?_revised _ _ notElement, required, fieldAt?_object]
  simp [notChildren]

end Members

/-! ## Loading -/

/-- The revised items are loaded if each of them is. -/
theorem mapM_reviseItems {items : List Json} {trees : List SemanticTree}
    (loaded : items.mapM load = some trees)
    (each : ∀ item ∈ items, ∀ (plan : Address → Revision) (tree : SemanticTree),
      load item = some tree → load (reviseJson plan item) = some (tree.revise plan))
    (plan : Address → Revision) (first : Nat) :
    (reviseItems plan first items).mapM load = some (reviseAmong plan first trees) := by
  induction items generalizing trees first with
  | nil =>
      cases loaded
      rfl
  | cons item rest ih =>
      rw [List.mapM_cons] at loaded
      obtain ⟨tree, loadsFirst, loaded⟩ := Option.bind_eq_some_iff.mp loaded
      obtain ⟨others, loadsOthers, same⟩ := Option.bind_eq_some_iff.mp loaded
      cases same
      rw [reviseItems, List.mapM_cons, each item List.mem_cons_self _ tree loadsFirst,
        ih loadsOthers fun other later => each other (List.mem_cons_of_mem _ later)]
      rfl

/-- A revised node is loaded as the tree that the node is loaded as, revised. -/
theorem load_reviseJson {json : Json} {tree : SemanticTree} (objects : HasObjectNodes json)
    (loaded : load json = some tree) (plan : Address → Revision) :
    load (reviseJson plan json) = some (tree.revise plan) := by
  induction objects generalizing plan tree with
  | @object members below ih =>
      rw [load_eq, Option.ite_none_right_eq_some] at loaded
      simp only [Option.bind_eq_bind, Option.bind_eq_some_iff, Bool.and_eq_true] at loaded
      obtain ⟨⟨-, unique⟩, label, hasLabel, path, hasPath, span, hasSpan, children, hasChildren,
        same⟩ := loaded
      cases same
      have element : lastMember? "element" (reviseMembers plan members) =
          lastMember? "element" members := by
        rw [lastMember?_reviseMembers]
        exact Option.map_id'
      have newChildren : (Json.object ((plan []).onMembers (reviseMembers plan members))).withDefault
          4 "children" (list? load) [] = some (reviseAmong plan 0 children) := by
        rw [withDefault, fieldAt?_object] at hasChildren ⊢
        rw [lastMember?_revised _ _ (by decide)]
        cases found : lastMember? "children" members with
        | none =>
            rw [found] at hasChildren
            cases hasChildren
            rfl
        | some value =>
            rw [found] at hasChildren
            cases value with
            | array items =>
                exact mapM_reviseItems hasChildren
                  (fun item listed plan _ loads => ih items found item listed loads plan) plan 0
            | null | bool _ | integer _ | decimal _ | string _ | object _ => cases hasChildren
      rw [reviseJson, load_eq, Option.ite_none_right_eq_some]
      simp only [Option.bind_eq_bind, Option.bind_eq_some_iff, Bool.and_eq_true]
      refine ⟨⟨rfl, fieldsUnique_onMembers _ _ ((fieldsUnique_reviseMembers _ _ _).mpr unique)⟩,
        label, (required_revised plan members text? 0 (by decide) (by decide)).trans hasLabel,
        path, (required_revised plan members text? 1 (by decide) (by decide)).trans hasPath,
        span, (required_revised plan members Span.load 2 (by decide) (by decide)).trans hasSpan,
        _, newChildren, ?_⟩
      rw [fieldAt?_object, fieldAt?_object, loadElement_onMembers, element, revise]
      rfl

/-- **A bad element harms nothing else.** Whatever is put for any elements of a semantic tree whose
nodes are objects, the tree is loaded; its nodes are at the same addresses and have their labels,
paths, spans and children. An element that was not revised is what it was; one that was is none for
null or no value, else what the value is loaded as, and the unknown element if it is not loaded. -/
theorem loads_with_any_elements {json : Json} {tree : SemanticTree} (objects : HasObjectNodes json)
    (loaded : load json = some tree) (plan : Address → Revision) :
    ∃ revised, load (reviseJson plan json) = some revised ∧
      ∀ address,
        (revised.at? address).map outline = (tree.at? address).map outline ∧
        ∀ before after, tree.at? address = some before → revised.at? address = some after →
          (plan address).Outcome before.entry.element after.entry.element := by
  refine ⟨tree.revise plan, load_reviseJson objects loaded plan, fun address => ⟨?_, ?_⟩⟩
  · rw [at?_revise, Option.map_map]
    congr 1
    funext part
    exact outline_revise _ part
  · intro before after hasBefore hasAfter
    rw [at?_revise, hasBefore] at hasAfter
    cases hasAfter
    rw [element_revise, List.append_nil]
    exact Revision.outcome_onElement _ _

/-! ### A type of the wrong form -/

namespace TwoParts

/-- A type, given as a text. -/
def typeForm : Json :=
  .object [("label", .string "type"), ("path", .string "/resources/orders/type"),
    ("range", .object [("start", .object [("line", .integer 4), ("column", .integer 5)])]),
    ("element", .object [("element", .string "resourceType"), ("value", .string "aws/table")])]

/-- A name, without an element. -/
def nameForm : Json :=
  .object [("label", .string "name"), ("path", .string "/resources/orders/name"),
    ("range", .object [("start", .object [("line", .integer 5), ("column", .integer 5)])])]

/-- A resource with a type and a name. -/
def form : Json :=
  .object [("label", .string "orders"), ("path", .string "/resources/orders"),
    ("range", .object [("start", .object [("line", .integer 3), ("column", .integer 3)])]),
    ("element", .object [("element", .string "resource"),
      ("value", .object [("name", .string "orders")])]),
    ("children", .array [typeForm, nameForm])]

/-- The type is given as a number, and a version as the element of the name. -/
def plan : Address → Revision
  | [0] => .put (.object [("element", .string "resourceType"), ("value", .integer 42)]) 0
  | [1] => .put (.object [("element", .string "version"), ("value", .string "1")]) 7
  | _ => .kept

/-- What the type and the name are loaded as. -/
def parts : List SemanticTree :=
  [node ⟨"type", "/resources/orders/type", ⟨⟨4, 5⟩, none⟩, some (.resourceType "aws/table")⟩ [],
    node ⟨"name", "/resources/orders/name", ⟨⟨5, 5⟩, none⟩, none⟩ []]

/-- What the resource is loaded as. -/
def tree : SemanticTree :=
  node ⟨"orders", "/resources/orders", ⟨⟨3, 3⟩, none⟩,
    some (.resourceDefinition ⟨"orders", none, none, []⟩)⟩ parts

theorem hasObjectNodes_form : HasObjectNodes form := by
  have type : HasObjectNodes typeForm := .object fun _ found => by cases found
  have name : HasObjectNodes nameForm := .object fun _ found => by cases found
  refine .object fun items found => ?_
  cases found
  exact List.forall_mem_cons.mpr ⟨type, List.forall_mem_cons.mpr ⟨name, List.forall_mem_nil _⟩⟩

theorem load_form : load form = some tree := by
  have children : form.withDefault 4 "children" (list? load) [] = some parts := by
    change [typeForm, nameForm].mapM load = _
    rw [List.mapM_cons, List.mapM_cons, load_eq typeForm, load_eq nameForm]
    rfl
  rw [load_eq, children]
  rfl

theorem loads_with_any_elements_twoParts :
    HasObjectNodes form ∧ load form = some tree ∧
      ∃ revised, load (reviseJson plan form) = some revised ∧
        ∃ part, revised.at? [0] = some part ∧
          part.outline = ("type", "/resources/orders/type", ⟨⟨4, 5⟩, none⟩, 0) ∧
          part.entry.element = some .unknown := by
  obtain ⟨revised, loads, nodes⟩ := loads_with_any_elements hasObjectNodes_form load_form plan
  obtain ⟨same, outcome⟩ := nodes [0]
  obtain ⟨part, found, outlined⟩ := Option.map_eq_some_iff.mp same
  refine ⟨hasObjectNodes_form, load_form, revised, loads, part, found, outlined, ?_⟩
  have becomes := outcome _ part rfl found
  generalize part.entry.element = element at becomes
  cases becomes with
  | loaded _ _ loads => cases loads
  | unknown => rfl

end TwoParts

end SemanticTree

end Blueprint
