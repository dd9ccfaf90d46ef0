import Mathlib.Algebra.Order.BigOperators.Group.List
import Mathlib.Algebra.Order.Ring.Nat
import Blueprint.Proofs.Conversion.Standing

/-!
# The error regions of JSON documents

Each region that a parser marks as an error should come back as an error node of the document tree.
A node of the parse tree brings the error nodes of the children that it retains, and one more if it
is an error region itself (`errorCount_ofNode`). So regions are lost just where a node does not
retain the child that holds them.

The main statement is exact (`Jsonc.errorCount_eq_regionCount_iff`): there are never more error
nodes than error regions, and as many just when at every node the retained children hold all the
regions below it (`Jsonc.SparesRegions`). Not every text is so lucky. In an entry with a stray comma
before its colon, the region of the comma makes way for the value
(`Jsonc.StrayComma.errorCount_ne_regionCount`).
-/

set_option autoImplicit false

namespace Blueprint

/-! ## Counting error nodes -/

namespace Draft

mutual
/-- The number of error nodes of a draft. -/
def errorCount : Draft → Nat
  | node entry children => errorCountAll children + if entry.isError then 1 else 0

/-- The number of error nodes of a list of drafts. -/
def errorCountAll : List Draft → Nat
  | [] => 0
  | draft :: rest => draft.errorCount + errorCountAll rest
end

theorem errorCountAll_eq_sum (drafts : List Draft) :
    errorCountAll drafts = (drafts.map errorCount).sum := by
  induction drafts with
  | nil => rfl
  | cons draft rest ih => rw [errorCountAll, List.map_cons, List.sum_cons, ih]

theorem errorCount_eq (draft : Draft) :
    draft.errorCount =
      (draft.children.map errorCount).sum + if draft.entry.isError then 1 else 0 := by
  cases draft with
  | node entry children => rw [errorCount, errorCountAll_eq_sum, children_node, entry_node]

mutual
theorem countP_numberFrom : ∀ (draft : Draft) (parent : Option Nat) (depth next : Nat),
    (numberFrom parent depth next draft).countP (fun node => node.entry.isError) =
      draft.errorCount
  | .node entry children, parent, depth, next => by
      rw [numberFrom, List.countP_cons, countP_numberAllFrom children, errorCount]
      rfl

theorem countP_numberAllFrom : ∀ (drafts : List Draft) (parent depth next : Nat),
    (numberAllFrom parent depth next drafts).countP (fun node => node.entry.isError) =
      errorCountAll drafts
  | [], _, _, _ => rfl
  | draft :: rest, parent, depth, next => by
      rw [numberAllFrom, List.countP_append, countP_numberFrom draft, countP_numberAllFrom rest,
        errorCountAll]
end

theorem errorCount_append (draft : Draft) (more : List Draft) :
    (draft.append more).errorCount = draft.errorCount + (more.map errorCount).sum := by
  rw [errorCount_eq, errorCount_eq draft, append, children_node, entry_node, List.map_append,
    List.sum_append]
  omega

/-- Giving a draft a role, or another kind, leaves its error nodes as they are. -/
theorem errorCount_mapEntry {change : Entry → Entry} (draft : Draft)
    (same : (change draft.entry).isError = draft.entry.isError) :
    (draft.mapEntry change).errorCount = draft.errorCount := by
  rw [errorCount_eq, errorCount_eq draft, mapEntry, entry_node, same, children_node]

end Draft

theorem Tree.errorCount_ofDraft (draft : Draft) (syntaxErrors : Bool) :
    (Tree.ofDraft draft syntaxErrors).errorCount = draft.errorCount := by
  rw [Tree.errorCount, Tree.nodes_eq, Draft.number_eq, List.countP_toArray]
  exact Draft.countP_numberFrom draft none 0 0

namespace Fragment

/-- The number of error nodes that a fragment will bring. -/
def errorCount : Fragment → Nat
  | node draft => draft.errorCount
  | pair entry => entry.value.elim 0 Draft.errorCount
  | item content _ => content.elim 0 Draft.errorCount
  | tag _ => 0
  | token _ => 0
  | skip => 0

theorem errorCount_toField (entry : Pair) :
    entry.toField.errorCount = (pair entry).errorCount := by
  have value : (entry.value.getD (.missing (.openAt entry.span.stopOrStart))).errorCount =
      (pair entry).errorCount := by
    rw [errorCount]
    cases entry.value with
    | none => rfl
    | some draft => rfl
  rw [Pair.toField, ← value]
  cases entry.key with
  | none => rfl
  | some key => exact Draft.errorCount_mapEntry _ rfl

theorem errorCount_toMapping (entry : Pair) :
    entry.toMapping.errorCount = (pair entry).errorCount := by
  rw [Draft.errorCount_eq, ← errorCount_toField]
  rfl

theorem errorCount_itemContent (content : Option Draft) (span : Span) :
    (itemContent content span).errorCount = (item content span).errorCount := by
  cases content with
  | none => rfl
  | some draft => rfl

/-! ## What a node retains -/

open Jsonc (Standing keepFirstContent isValue isStandIn valueOf? retainedByKind retainedOf)

/-- The number of error nodes that the fragments of some children will bring. -/
def errorSum (children : List (Visited Fragment)) : Nat :=
  (children.map fun child => child.result.errorCount).sum

theorem errorSum_nil : errorSum [] = 0 := rfl

theorem errorSum_cons (child : Visited Fragment) (rest : List (Visited Fragment)) :
    errorSum (child :: rest) = child.result.errorCount + errorSum rest := rfl

theorem errorSum_filter_region (children : List (Visited Fragment)) :
    errorSum (children.filter fun child => childStanding child == .region) =
      (((draftsOf children).filter fun draft => draft.entry.isError).map Draft.errorCount).sum := by
  induction children with
  | nil => rfl
  | cons child rest ih =>
      obtain ⟨kind, field, result⟩ := child
      cases result with
      | node draft =>
          rw [draftsOf_node, List.filter_cons, List.filter_cons]
          cases isError : draft.entry.isError with
          | true =>
              have isRegion := standing_node_eq_region_iff.mpr isError
              rw [if_pos (beq_iff_eq.mpr isRegion), if_pos rfl, errorSum_cons, ih]
              rfl
          | false =>
              have notRegion : (node draft).standing ≠ .region := fun isRegion => by
                rw [standing_node_eq_region_iff.mp isRegion] at isError
                cases isError
              rw [if_neg (fun isRegion => notRegion (beq_iff_eq.mp isRegion)),
                if_neg Bool.false_ne_true, ih]
      | pair entry => exact ih
      | item content span => exact ih
      | tag type => exact ih
      | token kind => exact ih
      | skip => exact ih

theorem errorSum_keepFirstContent (children : List (Visited Fragment)) :
    errorSum (keepFirstContent childStanding children) =
      (((draftsOf children).filter fun draft => draft.entry.isError).map Draft.errorCount).sum +
        (firstSound? (draftsOf children)).elim 0 Draft.errorCount := by
  induction children with
  | nil => rfl
  | cons child rest ih =>
      obtain ⟨kind, field, result⟩ := child
      cases result with
      | node draft =>
          rw [draftsOf_node, List.filter_cons, keepFirstContent]
          cases isError : draft.entry.isError with
          | true =>
              have isRegion := standing_node_eq_region_iff.mpr isError
              rw [if_neg (by simp [childStanding, isContent_standing_node, isError]),
                if_pos (beq_iff_eq.mpr isRegion), errorSum_cons, ih,
                firstSound?_cons_of_isError isError, if_pos rfl, List.map_cons, List.sum_cons,
                Nat.add_assoc]
              rfl
          | false =>
              rw [if_pos (by simp [childStanding, isContent_standing_node, isError]),
                errorSum_cons, errorSum_filter_region, firstSound?_cons_of_sound isError,
                if_neg Bool.false_ne_true, Nat.add_comm]
              rfl
      | pair entry => exact ih
      | item content span => exact ih
      | tag type => exact ih
      | token kind => exact ih
      | skip => exact ih

theorem errorCount_collapse (children : List (Visited Fragment)) :
    (collapse children).errorCount = errorSum (keepFirstContent childStanding children) := by
  rw [errorSum_keepFirstContent, collapse_eq]
  cases found : firstSound? (draftsOf children) with
  | some content =>
      simp only [errorCount, Draft.errorCount_append, Option.elim_some]
      omega
  | none =>
      have errors := isError_of_firstSound? found
      rw [List.filter_eq_self.mpr errors]
      cases drafts : draftsOf children with
      | nil => rfl
      | cons first rest =>
          simp only [errorCount, Draft.errorCount_append, List.map_cons, List.sum_cons,
            Option.elim_none]
          omega

/-- Entries, containers and error regions keep their error nodes in a mapping; a scalar becomes a
key without a value, and all else adds nothing. -/
theorem errorCount_entry (fragment : Fragment) :
    fragment.mappingChild?.elim 0 Draft.errorCount =
      if [Standing.entry, .container, .region].contains fragment.standing then fragment.errorCount
      else 0 := by
  cases fragment with
  | node draft =>
      rw [mappingChild?, standing, errorCount]
      cases draft.entry.isError with
      | true => rfl
      | false =>
          by_cases isScalar : draft.entry.kind = .scalar
          · rw [isScalar]
            rfl
          · rw [if_neg Bool.false_ne_true, if_neg Bool.false_ne_true,
              if_neg (fun same => isScalar (beq_iff_eq.mp same)), if_neg isScalar]
            rfl
  | pair entry => exact errorCount_toField entry
  | item content span => rfl
  | tag type => rfl
  | token kind => rfl
  | skip => rfl

theorem errorCount_mapping (span : Span) (kind : String) (children : List (Visited Fragment)) :
    (mapping span kind children).errorCount =
      errorSum (children.filter fun child =>
        [Standing.entry, .container, .region].contains (childStanding child)) := by
  rw [Draft.errorCount_eq, mapping, Draft.children_node]
  refine (Nat.add_zero _).trans ?_
  induction children with
  | nil => rfl
  | cons child rest ih =>
      have here := errorCount_entry child.result
      rw [List.filterMap_cons, List.filter_cons]
      split at here
      · next kept =>
          rw [if_pos kept, errorSum_cons, ← ih, ← here]
          cases child.result.mappingChild? with
          | none => exact (Nat.zero_add _).symm
          | some draft => rfl
      · next dropped =>
          rw [if_neg dropped, ← ih]
          cases added : child.result.mappingChild? with
          | none => rfl
          | some draft =>
              rw [added, Option.elim_some] at here
              rw [List.map_cons, List.sum_cons, here, Nat.zero_add]

theorem sum_itemsFrom (children : List (Visited Fragment)) (number : Nat) :
    ((itemsFrom number children).map Draft.errorCount).sum = errorSum children := by
  induction children generalizing number with
  | nil => rfl
  | cons child rest ih =>
      obtain ⟨kind, field, result⟩ := child
      rw [errorSum_cons]
      cases result with
      | node draft =>
          simp only [itemsFrom]
          split
          · rw [List.map_cons, List.sum_cons, ih]
            rfl
          · rw [List.map_cons, List.sum_cons, ih, Draft.asItem, Draft.errorCount_mapEntry _ rfl]
            rfl
      | pair entry =>
          rw [itemsFrom, List.map_cons, List.sum_cons, ih, Draft.asItem,
            Draft.errorCount_mapEntry _ rfl, errorCount_toMapping]
      | item content span =>
          rw [itemsFrom, List.map_cons, List.sum_cons, ih, Draft.asItem,
            Draft.errorCount_mapEntry _ rfl, errorCount_itemContent]
      | tag type => exact (ih number).trans (Nat.zero_add _).symm
      | token kind => exact (ih number).trans (Nat.zero_add _).symm
      | skip => exact (ih number).trans (Nat.zero_add _).symm

theorem sum_remainsFrom (children : List (Visited Fragment)) (number : Nat) :
    ((remainsFrom number children).map Draft.errorCount).sum = errorSum children := by
  induction children generalizing number with
  | nil => rfl
  | cons child rest ih =>
      obtain ⟨kind, field, result⟩ := child
      rw [errorSum_cons]
      cases result with
      | node draft =>
          simp only [remainsFrom, List.map_cons, List.sum_cons, ih]
          split
          · rw [danglingKey, Draft.errorCount_mapEntry _ rfl]
            rfl
          · rfl
      | pair entry =>
          rw [remainsFrom, List.map_cons, List.sum_cons, ih, errorCount_toField]
      | item content span =>
          rw [remainsFrom, List.map_cons, List.sum_cons, ih, Draft.asItem,
            Draft.errorCount_mapEntry _ rfl, errorCount_itemContent]
      | tag type => exact (ih number).trans (Nat.zero_add _).symm
      | token kind => exact (ih number).trans (Nat.zero_add _).symm
      | skip => exact (ih number).trans (Nat.zero_add _).symm

theorem errorCount_sequence (span : Span) (kind : String) (children : List (Visited Fragment)) :
    (sequence span kind children).errorCount = errorSum children := by
  rw [Draft.errorCount_eq, sequence, Draft.children_node, sum_itemsFrom]
  rfl

theorem errorCount_errorRegion (span : Span) (children : List (Visited Fragment)) :
    (errorRegion span children).errorCount = errorSum children + 1 := by
  rw [Draft.errorCount_eq, errorRegion, Draft.children_node, sum_remainsFrom]
  rfl

/-! ### Entries -/

/-- Fragments without a draft change nothing, whatever their field. -/
theorem value_take_of_not_isDraft (pair : Pair) {child : Visited Fragment}
    (noDraft : (childStanding child).isDraft = false) : (pair.take child).value = pair.value := by
  obtain ⟨kind, field, result⟩ := child
  cases result with
  | node draft =>
      rw [childStanding, isDraft_standing_node] at noDraft
      cases noDraft
  | pair entry => cases field with | none => rfl | some name => rfl
  | item content span => cases field with | none => rfl | some name => rfl
  | tag type => cases field with | none => rfl | some name => rfl
  | token kind => cases field with | none => rfl | some name => rfl
  | skip => cases field with | none => rfl | some name => rfl

theorem value_take_unnamed (pair : Pair) (kind : String) (draft : Draft) :
    (pair.take ⟨kind, none, node draft⟩).value =
      if (node draft).standing = .region then pair.value.or (some draft) else pair.value := by
  simp only [Pair.take, standing_node_eq_region_iff]
  cases draft.entry.isError with
  | false => rfl
  | true =>
      cases held : pair.value with
      | none => rfl
      | some value => exact held

theorem value_take_named (pair : Pair) (kind name : String) (draft : Draft) :
    (pair.take ⟨kind, some name, node draft⟩).value =
      if name = "value" then some draft else pair.value := by
  simp only [Pair.take, beq_iff_eq]
  split
  · next isKey => rw [isKey, if_neg (by decide)]
  · split
    · rfl
    · rfl

theorem value_take_eq (pair : Pair) (child : Visited Fragment) :
    (pair.take child).value =
      if isValue childStanding Visited.field child then child.result.draft?
      else if isStandIn childStanding Visited.field child then pair.value.or child.result.draft?
      else pair.value := by
  cases isDraft : (childStanding child).isDraft with
  | false =>
      have notRegion : childStanding child ≠ .region := fun isRegion => by
        rw [isRegion] at isDraft
        cases isDraft
      rw [value_take_of_not_isDraft pair isDraft, if_neg (by simp [isValue, isDraft]),
        if_neg (by simp [isStandIn, notRegion])]
  | true =>
      obtain ⟨kind, field, result⟩ := child
      obtain ⟨draft, rfl⟩ := exists_draft_of_isDraft isDraft
      cases field with
      | none => simp [value_take_unnamed, isValue, isStandIn, childStanding, draft?]
      | some name => simp [value_take_named, isValue, isStandIn, isDraft, draft?]

theorem exists_draft?_of_isValue {child : Visited Fragment}
    (isValue : isValue childStanding Visited.field child = true) :
    ∃ draft, child.result = node draft := by
  rw [Jsonc.isValue, Bool.and_eq_true] at isValue
  exact exists_draft_of_isDraft isValue.2

theorem exists_draft?_of_isStandIn {child : Visited Fragment}
    (isStandIn : isStandIn childStanding Visited.field child = true) :
    ∃ draft, child.result = node draft := by
  rw [Jsonc.isStandIn, Bool.and_eq_true, beq_iff_eq, beq_iff_eq] at isStandIn
  have isRegion : child.result.standing = .region := isStandIn.2
  exact exists_draft_of_isDraft (by rw [isRegion]; rfl)

/-- The value of an entry is the last child that may be it; failing that, what is there already;
failing that, the first stand-in. -/
theorem value_foldl_take (children : List (Visited Fragment)) (pair : Pair) :
    (children.foldl Pair.take pair).value =
      ((children.reverse.find? (isValue childStanding Visited.field)).bind fun child =>
        child.result.draft?).or
        (pair.value.or ((children.find? (isStandIn childStanding Visited.field)).bind fun child =>
          child.result.draft?)) := by
  induction children generalizing pair with
  | nil => simp
  | cons child rest ih =>
      rw [List.foldl_cons, ih, value_take_eq, List.reverse_cons, List.find?_append]
      cases later : rest.reverse.find? (isValue childStanding Visited.field) with
      | some last =>
          obtain ⟨draft, isNode⟩ := exists_draft?_of_isValue (List.find?_some later)
          simp [isNode, draft?]
      | none =>
          cases value : isValue childStanding Visited.field child with
          | true =>
              obtain ⟨draft, isNode⟩ := exists_draft?_of_isValue value
              simp [List.find?_cons, value, isNode, draft?]
          | false =>
              cases standIn : isStandIn childStanding Visited.field child with
              | true =>
                  obtain ⟨draft, isNode⟩ := exists_draft?_of_isStandIn standIn
                  cases held : pair.value with
                  | none => simp [value, standIn, isNode, draft?]
                  | some kept => simp [List.find?_cons, value]
              | false => simp [value, standIn]

theorem errorCount_ofChildren (span : Span) (children : List (Visited Fragment)) :
    (pair (.ofChildren span children)).errorCount =
      errorSum (valueOf? childStanding Visited.field children).toList := by
  rw [errorCount, Pair.ofChildren, value_foldl_take, valueOf?]
  cases last : children.reverse.find? (isValue childStanding Visited.field) with
  | some child =>
      obtain ⟨draft, isNode⟩ := exists_draft?_of_isValue (List.find?_some last)
      simp [isNode, draft?, errorSum, errorCount]
  | none =>
      cases first : children.find? (isStandIn childStanding Visited.field) with
      | some child =>
          obtain ⟨draft, isNode⟩ := exists_draft?_of_isStandIn (List.find?_some first)
          simp [isNode, draft?, errorSum, errorCount]
      | none => rfl

/-! ### Every node -/

theorem errorCount_ofNamed (source : Text.LineTable) (label : ParseNode)
    (children : List (Visited Fragment)) :
    (Jsonc.ofNamed source label children).errorCount =
      errorSum (retainedByKind childStanding Visited.field label.kind children) := by
  unfold Jsonc.ofNamed
  simp only
  split
  · next kind => rw [kind]; exact errorCount_collapse children
  · next kind => rw [kind]; exact errorCount_mapping _ _ children
  · next kind => rw [kind]; exact errorCount_ofChildren _ children
  · next kind => rw [kind]; exact errorCount_sequence _ _ children
  · next kind => rw [kind]; rfl
  · next kind => rw [kind]; rfl
  · next kind => rw [kind]; rfl
  · next kind => rw [kind]; rfl
  · next kind => rw [kind]; rfl
  · unfold retainedByKind
    simp only [*]
    rfl

/-- **A node brings the error nodes of the children it retains**, and one more if it is an error
region itself. -/
theorem errorCount_ofNode (source : Text.LineTable) (label : ParseNode)
    (children : List (Visited Fragment)) :
    (ofNode .jsonc source label children).errorCount =
      errorSum (retainedOf childStanding Visited.field label children) +
        if label.error && !label.missing then 1 else 0 := by
  rw [ofNode, retainedOf]
  cases label.missing with
  | true => simp [errorCount, errorSum_nil]
  | false =>
      cases label.error with
      | true => exact errorCount_errorRegion _ children
      | false =>
          cases label.named with
          | true => exact errorCount_ofNamed source label children
          | false => rfl

/-! ## Whole trees -/

namespace Jsonc

/-- The fragment of a tree brings the error nodes of the trees that its node retains. -/
theorem errorCount_fold (source : Text.LineTable) (tree : ParseTree) :
    (tree.fold (ofNode .jsonc source)).errorCount =
      ((retained tree).map fun child => (child.fold (ofNode .jsonc source)).errorCount).sum +
        if tree.label.error && !tree.label.missing then 1 else 0 := by
  obtain ⟨label, children⟩ := tree
  have standings : childStanding ∘ ParseTree.outcome (ofNode .jsonc source) = standing :=
    funext (standing_fold source)
  rw [ParseTree.fold, errorCount_ofNode, ParseTree.foldAll_eq_map, retainedOf_map, standings,
    errorSum, List.map_map]
  rfl

end Jsonc

end Fragment

/-- The number of error regions of a parse tree. -/
def ParseTree.regionCount (tree : ParseTree) : Nat :=
  tree.fold fun label below => (below.map Visited.result).sum + if label.error then 1 else 0

theorem ParseTree.regionCount_eq (tree : ParseTree) :
    tree.regionCount =
      (tree.children.map regionCount).sum + if tree.label.error then 1 else 0 := by
  obtain ⟨label, children⟩ := tree
  rw [regionCount, fold, foldAll_eq_map, List.map_map]
  rfl

namespace Fragment.Jsonc

/-- A node spares the error regions: it is not both a region and missing, and the trees that it
retains hold all the regions below it. -/
@[mk_iff] structure SparesRegions (tree : ParseTree) : Prop where
  present : tree.label.error = true → tree.label.missing = false
  all_retained : ((retained tree).map ParseTree.regionCount).sum =
    (tree.children.map ParseTree.regionCount).sum

instance (tree : ParseTree) : Decidable (SparesRegions tree) :=
  decidable_of_iff _ (sparesRegions_iff tree).symm

theorem sum_retained_le (tree : ParseTree) :
    ((retained tree).map ParseTree.regionCount).sum ≤
      (tree.children.map ParseTree.regionCount).sum :=
  ((retained_sublist tree).map _).sum_le_sum fun _ _ => Nat.zero_le _

/-- Where there are no error regions none can be lost. -/
theorem spares_of_regionCount_eq_zero :
    ∀ tree : ParseTree, tree.regionCount = 0 →
      Throughout ParseTree.children SparesRegions tree := by
  refine ParseTree.holds_of_children fun label children ih none => ?_
  rw [ParseTree.regionCount_eq, Nat.add_eq_zero_iff] at none
  have below := none.1
  have noError : label.error ≠ true := fun isError => by
    have here := none.2
    rw [show (ParseTree.node label children).label.error = true from isError] at here
    cases here
  refine .intro ⟨fun isError => absurd isError noError, ?_⟩ fun child member => ?_
  · have := sum_retained_le (.node label children)
    omega
  · exact ih child member (List.sum_eq_zero_iff.mp below _ (List.mem_map_of_mem member))

/-- If a part of a list counts as much as the whole, what holds of the part and of all that counts
nothing holds of the whole. -/
theorem forall_of_sum_eq {Item : Type} {count : Item → Nat} {holds : Item → Prop}
    (empty : ∀ item, count item = 0 → holds item) {part whole : List Item}
    (sublist : part.Sublist whole) (same : (part.map count).sum = (whole.map count).sum)
    (inPart : ∀ item ∈ part, holds item) : ∀ item ∈ whole, holds item := by
  induction sublist with
  | slnil => exact inPart
  | @cons part whole item sublist ih =>
      have less := (sublist.map count).sum_le_sum fun _ _ => Nat.zero_le _
      rw [List.map_cons, List.sum_cons] at same
      exact List.forall_mem_cons.mpr ⟨empty item (by omega), ih (by omega) inPart⟩
  | @cons_cons part whole item sublist ih =>
      rw [List.map_cons, List.map_cons, List.sum_cons, List.sum_cons] at same
      obtain ⟨here, later⟩ := List.forall_mem_cons.mp inPart
      exact List.forall_mem_cons.mpr ⟨here, ih (by omega) later⟩

/-- Counts that are nowhere greater and equal in total are equal everywhere. -/
theorem eq_of_sum_eq {Item : Type} {items : List Item} {less more : Item → Nat}
    (le : ∀ item ∈ items, less item ≤ more item)
    (same : (items.map less).sum = (items.map more).sum) :
    ∀ item ∈ items, less item = more item := by
  intro item member
  refine Nat.le_antisymm (le item member) (Nat.le_of_not_lt fun lt => ?_)
  exact Nat.ne_of_lt (List.sum_lt_sum less more le ⟨item, member, lt⟩) same

/-- The fragment of a tree brings at most as many error nodes as the tree has error regions, and
just as many when the regions are spared throughout. -/
theorem errorCount_fold_spec (source : Text.LineTable) :
    ∀ tree : ParseTree,
      (tree.fold (ofNode .jsonc source)).errorCount ≤ tree.regionCount ∧
        ((tree.fold (ofNode .jsonc source)).errorCount = tree.regionCount ↔
          Throughout ParseTree.children SparesRegions tree) := by
  refine ParseTree.holds_of_children fun label children ih => ?_
  have sublist := retained_sublist (.node label children)
  -- What comes through is at most what the retained trees hold, and this is at most what all hold.
  have brought : ∀ child ∈ retained (.node label children),
      (child.fold (ofNode .jsonc source)).errorCount ≤ child.regionCount :=
    fun child member => (ih child (sublist.subset member)).1
  have brought_le := List.sum_le_sum brought
  have retained_le := sum_retained_le (.node label children)
  have own_le : (if label.error && !label.missing then 1 else 0) ≤
      if label.error then 1 else 0 := by
    cases label.error <;> cases label.missing <;> decide
  have own_eq_iff : ((if label.error && !label.missing then 1 else 0) =
      if label.error then 1 else 0) ↔ (label.error = true → label.missing = false) := by
    cases label.error <;> cases label.missing <;> decide
  rw [errorCount_fold, ParseTree.regionCount_eq]
  refine ⟨Nat.add_le_add (brought_le.trans retained_le) own_le, ?_⟩
  constructor
  · intro same
    obtain ⟨below, own⟩ := (add_eq_add_iff_eq_and_eq (brought_le.trans retained_le) own_le).mp same
    have all_brought := Nat.le_antisymm brought_le (retained_le.trans_eq below.symm)
    refine .intro ⟨own_eq_iff.mp own, all_brought.symm.trans below⟩ ?_
    refine forall_of_sum_eq spares_of_regionCount_eq_zero sublist (all_brought.symm.trans below) ?_
    intro child member
    exact (ih child (sublist.subset member)).2.mp (eq_of_sum_eq brought all_brought child member)
  · intro spared
    have all_brought : ∀ child ∈ retained (.node label children),
        (child.fold (ofNode .jsonc source)).errorCount = child.regionCount := by
      intro child member
      have below := sublist.subset member
      exact (ih child below).2.mpr (spared.inner child below)
    rw [List.map_congr_left all_brought, spared.here.all_retained]
    exact congrArg _ (own_eq_iff.mpr spared.here.present)

theorem errorCount_toDocument (source : Text.LineTable) {content : Fragment}
    (notItem : ∀ draft span, content ≠ .item draft span) :
    (content.toDocument source).errorCount = content.errorCount := by
  rw [Draft.errorCount_eq]
  cases content with
  | node draft => rfl
  | pair entry => exact errorCount_toMapping entry
  | item draft span => exact absurd rfl (notItem draft span)
  | tag type => rfl
  | token kind => rfl
  | skip => rfl

theorem collapse_ne_item (children : List (Visited Fragment)) (draft : Option Draft) (span : Span) :
    collapse children ≠ .item draft span := by
  rw [collapse_eq]
  split
  · nofun
  · nofun
  · nofun

theorem ofNode_ne_item (source : Text.LineTable) (label : ParseNode)
    (children : List (Visited Fragment)) (draft : Option Draft) (span : Span) :
    ofNode .jsonc source label children ≠ .item draft span := by
  unfold ofNode
  split
  · nofun
  · split
    · nofun
    · split
      · nofun
      · simp only [ofNamed]
        split
        · exact collapse_ne_item children draft span
        all_goals nofun

/-- **Which error regions come through.** The tree of a JSON document has at most as many error
nodes as the parse tree has error regions, and as many just when every node of the parse tree spares
the regions below it. -/
theorem errorCount_eq_regionCount_iff (source : String) (parse : Parse) :
    (Tree.ofParse source .jsonc parse).errorCount ≤ parse.tree.regionCount ∧
      ((Tree.ofParse source .jsonc parse).errorCount = parse.tree.regionCount ↔
        Throughout ParseTree.children SparesRegions parse.tree) := by
  have notItem : ∀ draft span,
      parse.tree.fold (ofNode .jsonc (.ofText source.toList)) ≠ .item draft span := by
    obtain ⟨label, children⟩ := parse.tree
    exact ofNode_ne_item _ label _
  rw [Tree.ofParse, Tree.errorCount_ofDraft, ParseTree.toDraft, ParseTree.traverse_eq_some_fold,
    Option.getD_some, errorCount_toDocument _ notItem]
  exact errorCount_fold_spec _ parse.tree

/-! ## A region that is lost -/

/-- A node that has error regions right below it only if it is a document, an object, an entry, an
array or an error region. -/
def HostsRegions (tree : ParseTree) : Prop :=
  (∃ child ∈ tree.children, child.label.error = true) →
    tree.label.error = true ∨ tree.label.kind ∈ ["document", "object", "pair", "array"]

instance (tree : ParseTree) : Decidable (HostsRegions tree) :=
  inferInstanceAs (Decidable ((∃ child ∈ tree.children, child.label.error = true) → _))

namespace StrayComma

open ParseTree (sound region punctuation)

def source : String := "\x7b\"a\" 1, \"b\",: 2\x7d"

/-- A string of one letter. -/
def letter (field : Option String) (start : Nat) : ParseTree :=
  sound "string" field start (start + 3)
    [punctuation "\"" start, sound "string_content" none (start + 1) (start + 2) [],
      punctuation "\"" (start + 2)]

/-- The entry of `b`, with a comma in front of its colon. -/
def entry : ParseTree :=
  sound "pair" none 8 15
    [letter (some "key") 8, region 11 12 [punctuation "," 11], punctuation ":" 12,
      sound "number" (some "value") 14 15 []]

def tree : ParseTree :=
  sound "document" none 0 16 [sound "object" none 0 16
    [punctuation "\x7b" 0,
      region 1 7 [letter none 1, sound "number" none 5 6 [], punctuation "," 6], entry,
      punctuation "\x7d" 15]]

/-- The region of the comma stands in for the value of `b` until the value comes, so that the entry
does not spare it. -/
theorem errorCount_ne_regionCount :
    tree.label.kind = "document" ∧ Throughout ParseTree.children HostsRegions tree ∧
      ¬SparesRegions entry ∧
        (Tree.ofParse source .jsonc ⟨tree, true⟩).errorCount ≠ tree.regionCount := by
  decide +kernel

end StrayComma

end Fragment.Jsonc

end Blueprint
