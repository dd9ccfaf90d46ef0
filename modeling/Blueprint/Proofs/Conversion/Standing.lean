import Blueprint.Proofs.Conversion.Nesting

/-!
# What the nodes of a JSON parse tree stand for

A node of a JSON parse tree stands for a scalar, a container, an entry, an error region or nothing.
Which of these it is depends on its kind, and for a document on what is in it
(`Jsonc.standingOf`). Arrays and error regions take in everything below them, and objects all but
lone scalars. An entry has room for one value only, and of a document only the first content goes
on, with the error regions beside it (`Jsonc.retainedOf`).

Both are stated on parse trees alone (`Jsonc.standing`, `Jsonc.retained`). They can be read off the
fragments too, since a fragment stands for what its tree stands for (`Jsonc.standing_fold`).
-/

set_option autoImplicit false

namespace Blueprint

namespace Fragment

namespace Jsonc

/-- What a node of a JSON parse tree stands for in the document. -/
inductive Standing where
  | nothing
  | scalar
  | container
  /-- An entry of an object. -/
  | entry
  /-- An error region. -/
  | region
deriving DecidableEq

/-- Scalars and containers are content. -/
def Standing.isContent : Standing → Bool
  | scalar | container => true
  | _ => false

/-- Content and error regions have a draft of their own. -/
def Standing.isDraft : Standing → Bool
  | scalar | container | region => true
  | _ => false

/-- A document stands for its first content, or else for the error regions in it. -/
def Standing.ofContent (below : List Standing) : Standing :=
  (below.find? isContent).getD (if region ∈ below then region else nothing)

/-- What a named node stands for, given what its children stand for. -/
def standingOfKind (kind : String) (below : List Standing) : Standing :=
  match kind with
  | "document" => .ofContent below
  | "object" => .container
  | "pair" => .entry
  | "array" => .container
  | "string" | "number" | "true" | "false" | "null" => .scalar
  | _ => .nothing

/-- What a node stands for, given what its children stand for. -/
def standingOf (label : ParseNode) (below : List Standing) : Standing :=
  if label.missing then .nothing
  else if label.error then .region
  else if label.named then standingOfKind label.kind below
  else .nothing

/-- What a parse tree stands for. -/
def standing (tree : ParseTree) : Standing :=
  tree.fold fun label below => standingOf label (below.map Visited.result)

section Retained

-- The children are trees in the statements below, and fragments in their proofs.
variable {Child : Type} (standing : Child → Standing) (field : Child → Option String)

/-- The first content of a list and the error regions beside it. -/
def keepFirstContent : List Child → List Child
  | [] => []
  | child :: rest =>
    if (standing child).isContent then child :: rest.filter fun later => standing later == .region
    else if standing child == .region then child :: keepFirstContent rest
    else keepFirstContent rest

/-- Whether a child may be the value of an entry. -/
def isValue (child : Child) : Bool :=
  field child == some "value" && (standing child).isDraft

/-- Whether a child may stand in for a value that is not there. -/
def isStandIn (child : Child) : Bool := field child == none && standing child == .region

/-- The value of an entry: the last child that may be it, or else the first stand-in. -/
def valueOf? (children : List Child) : Option Child :=
  (children.reverse.find? (isValue standing field)).or
    (children.find? (isStandIn standing field))

/-- The children that a named node retains. -/
def retainedByKind (kind : String) (children : List Child) : List Child :=
  match kind with
  | "document" => keepFirstContent standing children
  | "object" => children.filter fun child =>
      [Standing.entry, .container, .region].contains (standing child)
  | "pair" => (valueOf? standing field children).toList
  | "array" => children
  | _ => []

/-- The children that a node retains. -/
def retainedOf (label : ParseNode) (children : List Child) : List Child :=
  if label.missing then []
  else if label.error then children
  else if label.named then retainedByKind standing field label.kind children
  else []

end Retained

/-- The trees right below a node that go on into the document. -/
def retained (tree : ParseTree) : List ParseTree :=
  retainedOf standing (fun child => child.label.field) tree.label tree.children

end Jsonc

/-! ## Fragments -/

open Jsonc (Standing standingOf)

/-- What a fragment stands for. -/
def standing : Fragment → Standing
  | node draft =>
    if draft.entry.isError then .region
    else if draft.entry.kind = .scalar then .scalar
    else .container
  | pair _ => .entry
  | _ => .nothing

theorem isContent_standing_node (draft : Draft) :
    (node draft).standing.isContent = !draft.entry.isError := by
  rw [standing]
  split
  · next isError => rw [isError]; rfl
  · next sound =>
      rw [Bool.not_eq_true] at sound
      rw [sound]
      split
      · rfl
      · rfl

theorem standing_node_eq_region_iff {draft : Draft} :
    (node draft).standing = .region ↔ draft.entry.isError = true := by
  rw [standing]
  split
  · next isError => simp [isError]
  · next sound =>
      split
      · simpa using sound
      · simpa using sound

theorem isDraft_standing_node (draft : Draft) : (node draft).standing.isDraft = true := by
  rw [standing]
  split
  · rfl
  · split
    · rfl
    · rfl

theorem exists_draft_of_isDraft {fragment : Fragment} (isDraft : fragment.standing.isDraft = true) :
    ∃ draft, fragment = node draft := by
  cases fragment with
  | node draft => exact ⟨draft, rfl⟩
  | pair entry => cases isDraft
  | item content span => cases isDraft
  | tag type => cases isDraft
  | token kind => cases isDraft
  | skip => cases isDraft

/-! ### Wrappers -/

/-- The drafts among the fragments of a node's children. -/
def draftsOf (children : List (Visited Fragment)) : List Draft :=
  children.filterMap fun child => child.result.draft?

theorem draftsOf_node (kind : String) (field : Option String) (draft : Draft)
    (rest : List (Visited Fragment)) :
    draftsOf (⟨kind, field, node draft⟩ :: rest) = draft :: draftsOf rest := rfl

/-- The first draft of a list that is no error. -/
def firstSound? (drafts : List Draft) : Option Draft :=
  drafts.find? fun draft => !draft.entry.isError

theorem firstSound?_cons_of_isError {draft : Draft} (isError : draft.entry.isError = true)
    (rest : List Draft) : firstSound? (draft :: rest) = firstSound? rest := by
  rw [firstSound?, List.find?_cons_of_neg (by simp [isError]), firstSound?]

theorem firstSound?_cons_of_sound {draft : Draft} (sound : draft.entry.isError = false)
    (rest : List Draft) : firstSound? (draft :: rest) = some draft := by
  rw [firstSound?, List.find?_cons_of_pos (by simp [sound])]

theorem find?_isContent_standing (children : List (Visited Fragment)) :
    (children.map fun child => child.result.standing).find? Standing.isContent =
      (firstSound? (draftsOf children)).map fun draft => (node draft).standing := by
  induction children with
  | nil => rfl
  | cons child rest ih =>
      obtain ⟨kind, field, result⟩ := child
      cases result with
      | node draft =>
          rw [List.map_cons, List.find?_cons, isContent_standing_node, ih, draftsOf_node]
          cases isError : draft.entry.isError with
          | true => rw [firstSound?_cons_of_isError isError]; rfl
          | false => rw [firstSound?_cons_of_sound isError]; rfl
      | pair entry => exact ih
      | item content span => exact ih
      | tag type => exact ih
      | token kind => exact ih
      | skip => exact ih

theorem region_mem_standing_iff (children : List (Visited Fragment)) :
    (Standing.region ∈ children.map fun child => child.result.standing) ↔
      ∃ draft ∈ draftsOf children, draft.entry.isError = true := by
  simp only [List.mem_map, draftsOf, List.mem_filterMap]
  constructor
  · rintro ⟨child, member, isRegion⟩
    obtain ⟨draft, isNode⟩ := exists_draft_of_isDraft (by rw [isRegion]; rfl)
    rw [isNode] at isRegion
    exact ⟨draft, ⟨child, member, by rw [isNode]; rfl⟩, standing_node_eq_region_iff.mp isRegion⟩
  · rintro ⟨draft, ⟨child, member, isDraft⟩, isError⟩
    refine ⟨child, member, ?_⟩
    rw [eq_node_of_draft? isDraft]
    exact standing_node_eq_region_iff.mpr isError

/-- A wrapper is its first sound draft with the error regions below it, or else the first of its
error regions with the others below it. -/
theorem collapse_eq (children : List (Visited Fragment)) :
    collapse children =
      match firstSound? (draftsOf children), draftsOf children with
      | some content, drafts =>
        node (content.append (drafts.filter fun draft => draft.entry.isError))
      | none, first :: rest => node (first.append rest)
      | none, [] => skip := by
  unfold collapse draftsOf firstSound?
  simp only
  cases drafts : children.filterMap fun child => child.result.draft? with
  | nil => rfl
  | cons first rest =>
      simp only
      split
      · next found => rw [found]
      · next found => rw [found]

theorem isError_of_firstSound? {drafts : List Draft} (unsound : firstSound? drafts = none) :
    ∀ draft ∈ drafts, draft.entry.isError = true := by
  intro draft member
  simpa using List.find?_eq_none.mp unsound draft member

theorem standing_collapse (children : List (Visited Fragment)) :
    (collapse children).standing =
      .ofContent (children.map fun child => child.result.standing) := by
  rw [Standing.ofContent, find?_isContent_standing, collapse_eq]
  cases found : firstSound? (draftsOf children) with
  | some content => rfl
  | none =>
      have errors := isError_of_firstSound? found
      have isRegion := region_mem_standing_iff children
      cases drafts : draftsOf children with
      | nil =>
          rw [drafts] at isRegion
          rw [Option.map_none, Option.getD_none, if_neg (by simp [isRegion])]
          rfl
      | cons first rest =>
          rw [drafts] at isRegion errors
          have isError := errors first List.mem_cons_self
          rw [Option.map_none, Option.getD_none,
            if_pos (isRegion.mpr ⟨first, List.mem_cons_self, isError⟩)]
          exact standing_node_eq_region_iff.mpr isError

theorem standing_ofNamed (source : Text.LineTable) (label : ParseNode)
    (children : List (Visited Fragment)) :
    (Jsonc.ofNamed source label children).standing =
      Jsonc.standingOfKind label.kind (children.map fun child => child.result.standing) := by
  unfold Jsonc.ofNamed
  simp only
  split
  · next kind => rw [kind]; exact standing_collapse children
  · next kind => rw [kind]; rfl
  · next kind => rw [kind]; rfl
  · next kind => rw [kind]; rfl
  · next kind => rw [kind]; rfl
  · next kind => rw [kind]; rfl
  · next kind => rw [kind]; rfl
  · next kind => rw [kind]; rfl
  · next kind => rw [kind]; rfl
  · unfold Jsonc.standingOfKind
    simp only [*]
    rfl

/-- What the fragment of a child stands for. -/
abbrev childStanding (child : Visited Fragment) : Standing := child.result.standing

theorem standing_ofNode (source : Text.LineTable) (label : ParseNode)
    (children : List (Visited Fragment)) :
    (ofNode .jsonc source label children).standing =
      standingOf label (children.map childStanding) := by
  rw [ofNode, standingOf]
  cases label.missing with
  | true => rfl
  | false =>
      cases label.error with
      | true => rfl
      | false =>
          cases label.named with
          | true => exact standing_ofNamed source label children
          | false => rfl

/-! ## Whole trees -/

namespace Jsonc

section Retained

variable {Child Other : Type} (standing : Child → Standing) (field : Child → Option String)

theorem keepFirstContent_sublist (children : List Child) :
    (keepFirstContent standing children).Sublist children := by
  induction children with
  | nil => exact .slnil
  | cons child rest ih =>
      rw [keepFirstContent]
      split
      · exact List.filter_sublist.cons_cons child
      · split
        · exact ih.cons_cons child
        · exact ih.cons child

theorem mem_of_valueOf? {children : List Child} {child : Child}
    (found : valueOf? standing field children = some child) : child ∈ children := by
  rw [valueOf?, Option.or_eq_some_iff] at found
  rcases found with last | ⟨_, first⟩
  · exact List.mem_reverse.mp (List.mem_of_find?_eq_some last)
  · exact List.mem_of_find?_eq_some first

theorem retainedOf_sublist (label : ParseNode) (children : List Child) :
    (retainedOf standing field label children).Sublist children := by
  have byKind : (retainedByKind standing field label.kind children).Sublist children := by
    unfold retainedByKind
    split
    · exact keepFirstContent_sublist standing children
    · exact List.filter_sublist
    · cases found : valueOf? standing field children with
      | none => exact List.nil_sublist _
      | some child => exact List.singleton_sublist.mpr (mem_of_valueOf? standing field found)
    · exact .refl _
    · exact List.nil_sublist _
  unfold retainedOf
  split
  · exact List.nil_sublist _
  · split
    · exact .refl _
    · split
      · exact byKind
      · exact List.nil_sublist _

theorem keepFirstContent_map (become : Other → Child) (children : List Other) :
    keepFirstContent standing (children.map become) =
      (keepFirstContent (standing ∘ become) children).map become := by
  induction children with
  | nil => rfl
  | cons child rest ih =>
      rw [List.map_cons, keepFirstContent, keepFirstContent, Function.comp_apply]
      split
      · rw [List.map_cons, List.filter_map]
        rfl
      · split
        · rw [List.map_cons, ih]
        · exact ih

theorem valueOf?_map (become : Other → Child) (children : List Other) :
    valueOf? standing field (children.map become) =
      (valueOf? (standing ∘ become) (field ∘ become) children).map become := by
  rw [valueOf?, valueOf?, ← List.map_reverse, List.find?_map, List.find?_map, ← Option.map_or]
  rfl

theorem retainedOf_map (become : Other → Child) (label : ParseNode) (children : List Other) :
    retainedOf standing field label (children.map become) =
      (retainedOf (standing ∘ become) (field ∘ become) label children).map become := by
  have byKind : retainedByKind standing field label.kind (children.map become) =
      (retainedByKind (standing ∘ become) (field ∘ become) label.kind children).map become := by
    unfold retainedByKind
    split
    · exact keepFirstContent_map standing become children
    · exact List.filter_map
    · rw [valueOf?_map, Option.toList_map]
    · rfl
    · rfl
  unfold retainedOf
  split
  · rfl
  · split
    · rfl
    · split
      · exact byKind
      · rfl

end Retained

theorem standing_fold (source : Text.LineTable) :
    ∀ tree : ParseTree, (tree.fold (ofNode .jsonc source)).standing = standing tree := by
  refine ParseTree.holds_of_children fun label children ih => ?_
  rw [ParseTree.fold, standing_ofNode, standing, ParseTree.fold, ParseTree.foldAll_eq_map,
    ParseTree.foldAll_eq_map, List.map_map, List.map_map]
  exact congrArg _ (List.map_congr_left ih)

theorem retained_sublist (tree : ParseTree) : (retained tree).Sublist tree.children :=
  retainedOf_sublist _ _ _ _

end Jsonc

end Fragment

end Blueprint
