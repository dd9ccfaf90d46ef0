import Blueprint.Proofs.Text.Offsets
import Blueprint.Proofs.Tree.Numbering

/-!
# Nested places

The places of a tree are nested when each node's entry begins and ends inside its parent, siblings
follow one another without overlap, and a key comes before its value (`Tree.Nested`). A node that
nobody has written yet has no end; it counts as ending where it starts.

On drafts the same is said of one node and the nodes right below it (`Draft.Nests`), and of a whole
draft by saying it throughout. The numbering carries one to the other (`Tree.nested_of_throughout`)
and back (`Tree.Nested.draft`).
-/

set_option autoImplicit false

namespace Blueprint

/-- A property of a shape, of the shapes below it, of those below them, and so on. -/
inductive Throughout {Shape : Type} (below : Shape → List Shape) (holds : Shape → Prop) :
    Shape → Prop
  | intro {shape : Shape} (here : holds shape)
      (inner : ∀ child ∈ below shape, Throughout below holds child) : Throughout below holds shape

namespace Throughout

variable {Shape : Type} {below : Shape → List Shape} {holds : Shape → Prop} {shape : Shape}

theorem here (throughout : Throughout below holds shape) : holds shape := by
  cases throughout with
  | intro here inner => exact here

theorem inner (throughout : Throughout below holds shape) :
    ∀ child ∈ below shape, Throughout below holds child := by
  cases throughout with
  | intro here inner => exact inner

end Throughout

/-! ## The places of one node -/

namespace Entry

/-- The places of an entry are in order: its span does not end before it starts, and its key ends
before it starts. -/
structure Ordered (entry : Entry) : Prop where
  start_le_stop : ∀ stop, entry.span.stop = some stop → entry.span.start ≤ stop
  key_before : ∀ key, entry.keySpan = some key →
    ∃ stop, key.stop = some stop ∧ key.start ≤ stop ∧ stop ≤ entry.span.start

/-- One entry, with its key, lies within the span of another. -/
def Encloses (outer inner : Entry) : Prop :=
  outer.span.start ≤ inner.entryStart ∧
    ∃ stop, outer.span.stop = some stop ∧ inner.span.stopOrStart ≤ stop

/-- One entry ends before another, with its key, begins. -/
def Precedes (left right : Entry) : Prop := left.span.stopOrStart ≤ right.entryStart

variable {entry : Entry}

instance (entry : Entry) : Decidable entry.Ordered :=
  decidable_of_iff ((entry.span.stop.all fun stop => entry.span.start ≤ stop) ∧
      entry.keySpan.all fun key => key.stop.any fun stop =>
        key.start ≤ stop ∧ stop ≤ entry.span.start) (by
    simp only [Option.all_eq_true, Option.any_eq_true, decide_eq_true_eq]
    exact ⟨fun ordered => ⟨ordered.1, ordered.2⟩, fun ordered => ⟨ordered.1, ordered.2⟩⟩)

instance (outer inner : Entry) : Decidable (outer.Encloses inner) :=
  decidable_of_iff (outer.span.start ≤ inner.entryStart ∧
      outer.span.stop.any fun stop => inner.span.stopOrStart ≤ stop) (by
    simp only [Encloses, Option.any_eq_true, decide_eq_true_eq])

instance (left right : Entry) : Decidable (left.Precedes right) :=
  inferInstanceAs (Decidable (left.span.stopOrStart ≤ right.entryStart))

theorem Ordered.entryStart_le_start (ordered : entry.Ordered) :
    entry.entryStart ≤ entry.span.start := by
  cases keyed : entry.keySpan with
  | none =>
      rw [entryStart, keyed, Option.getD_none]
      exact Position.le_refl _
  | some key =>
      obtain ⟨stop, _, runs, before⟩ := ordered.key_before key keyed
      rw [entryStart, keyed, Option.getD_some]
      exact Position.le_trans runs before

theorem Ordered.start_le_stopOrStart (ordered : entry.Ordered) :
    entry.span.start ≤ entry.span.stopOrStart := by
  cases ended : entry.span.stop with
  | none =>
      rw [Span.stopOrStart, ended, Option.getD_none]
      exact Position.le_refl _
  | some stop =>
      rw [Span.stopOrStart, ended, Option.getD_some]
      exact ordered.start_le_stop stop ended

end Entry

/-! ## The places of a draft -/

namespace Draft

/-- A node's places are in order, and so are the nodes right below it, inside it and apart from each
other. -/
structure Nests (draft : Draft) : Prop where
  ordered : draft.entry.Ordered
  encloses : ∀ child ∈ draft.children, draft.entry.Encloses child.entry
  precedes : draft.children.Pairwise fun left right => left.entry.Precedes right.entry

instance (draft : Draft) : Decidable draft.Nests :=
  decidable_of_iff (draft.entry.Ordered ∧
      (∀ child ∈ draft.children, draft.entry.Encloses child.entry) ∧
        draft.children.Pairwise fun left right => left.entry.Precedes right.entry)
    ⟨fun nests => ⟨nests.1, nests.2.1, nests.2.2⟩,
      fun nests => ⟨nests.ordered, nests.encloses, nests.precedes⟩⟩

/-- A draft whose places are nested throughout. -/
abbrev Nested (draft : Draft) : Prop := Throughout Draft.children Nests draft

/-- Only the span of a node matters to the nodes below it. -/
theorem Nested.withEntry {draft : Draft} (nested : draft.Nested) {entry : Entry}
    (ordered : entry.Ordered) (same : entry.span = draft.entry.span) :
    (node entry draft.children).Nested := by
  refine .intro ⟨ordered, ?_, nested.here.precedes⟩ nested.inner
  intro child below
  rw [entry_node, Entry.Encloses, same]
  exact nested.here.encloses child below

theorem nested_leaf {entry : Entry} (ordered : entry.Ordered) : (node entry []).Nested :=
  .intro ⟨ordered, List.forall_mem_nil _, .nil⟩ (List.forall_mem_nil _)

/-- A nested draft, with its key, between two positions. -/
structure Fits (low high : Position) (draft : Draft) : Prop where
  nested : draft.Nested
  low_le : low ≤ draft.entry.entryStart
  le_high : draft.entry.span.stopOrStart ≤ high

theorem Fits.low_le_high {low high : Position} {draft : Draft} (fits : draft.Fits low high) :
    low ≤ high := by
  have ordered := fits.nested.here.ordered
  have begun := Position.le_trans fits.low_le ordered.entryStart_le_start
  exact Position.le_trans (Position.le_trans begun ordered.start_le_stopOrStart) fits.le_high

theorem Fits.mono {low high low' high' : Position} {draft : Draft} (fits : draft.Fits low high)
    (lower : low' ≤ low) (upper : high ≤ high') : draft.Fits low' high' :=
  ⟨fits.nested, Position.le_trans lower fits.low_le, Position.le_trans fits.le_high upper⟩

/-- Drafts one after the other between two positions. -/
structure Lined (low high : Position) (drafts : List Draft) : Prop where
  fits : ∀ draft ∈ drafts, draft.Fits low high
  precedes : drafts.Pairwise fun left right => left.entry.Precedes right.entry

theorem lined_nil (low high : Position) : Lined low high [] :=
  ⟨List.forall_mem_nil _, .nil⟩

theorem Lined.cons {low middle high : Position} {draft : Draft} {rest : List Draft}
    (fits : draft.Fits low middle) (lined : Lined middle high rest) (upper : middle ≤ high) :
    Lined low high (draft :: rest) := by
  refine ⟨?_, List.pairwise_cons.mpr ⟨?_, lined.precedes⟩⟩
  · intro other member
    rcases List.mem_cons.mp member with rfl | later
    · exact fits.mono (Position.le_refl _) upper
    · exact (lined.fits other later).mono fits.low_le_high (Position.le_refl _)
  · intro other later
    exact Position.le_trans fits.le_high (lined.fits other later).low_le

theorem Lined.mono {low high low' : Position} {drafts : List Draft} (lined : Lined low high drafts)
    (lower : low' ≤ low) : Lined low' high drafts :=
  ⟨fun draft member => (lined.fits draft member).mono lower (Position.le_refl _), lined.precedes⟩

/-- A node between two positions may hold whatever is lined up between them. -/
theorem Lined.nested {low high : Position} {entry : Entry} {drafts : List Draft}
    (lined : Lined low high drafts) (ordered : entry.Ordered)
    (span : entry.span = .closed low high) : (node entry drafts).Nested := by
  refine .intro ⟨ordered, ?_, lined.precedes⟩ fun child below => (lined.fits child below).nested
  intro child below
  have fits := lined.fits child below
  rw [entry_node, Entry.Encloses, span]
  exact ⟨fits.low_le, high, rfl, fits.le_high⟩

end Draft

/-! ## The places of a tree -/

namespace Draft

theorem exists_mem_numberFrom_of_mem_numberAllFrom {drafts : List Draft} {parent depth next : Nat}
    {node : Node} (member : node ∈ numberAllFrom parent depth next drafts) :
    ∃ draft ∈ drafts, ∃ first, node ∈ numberFrom (some parent) depth first draft := by
  induction drafts generalizing next with
  | nil =>
      rw [numberAllFrom] at member
      cases member
  | cons draft rest ih =>
      rw [numberAllFrom] at member
      rcases List.mem_append.mp member with inside | later
      · exact ⟨draft, List.mem_cons_self, next, inside⟩
      · obtain ⟨other, listed, first, inside⟩ := ih later
        exact ⟨other, List.mem_cons_of_mem _ listed, first, inside⟩

/-- What holds throughout a draft holds at every node of its numbering. -/
theorem holds_of_mem_numberFrom {holds : Draft → Prop} {draft : Draft}
    (throughout : Throughout Draft.children holds draft) {parent : Option Nat} {depth next : Nat}
    {node : Node} (member : node ∈ numberFrom parent depth next draft) : holds node.draft := by
  induction throughout generalizing parent depth next with
  | intro here _ ih =>
      rw [numberFrom_eq_cons] at member
      rcases List.mem_cons.mp member with rfl | below
      · exact here
      · obtain ⟨child, listed, first, inside⟩ := exists_mem_numberFrom_of_mem_numberAllFrom below
        exact ih child listed inside

mutual
/-- What holds at every node of its numbering holds throughout a draft. -/
theorem throughout_of_numberFrom {holds : Draft → Prop} : ∀ (draft : Draft)
    (parent : Option Nat) (depth next : Nat),
    (∀ node ∈ numberFrom parent depth next draft, holds node.draft) →
      Throughout Draft.children holds draft
  | .node entry children, parent, depth, next, every => by
      rw [numberFrom] at every
      obtain ⟨here, below⟩ := List.forall_mem_cons.mp every
      exact .intro here (throughout_of_numberAllFrom children next (depth + 1) (next + 1) below)

theorem throughout_of_numberAllFrom {holds : Draft → Prop} : ∀ (drafts : List Draft)
    (parent depth next : Nat),
    (∀ node ∈ numberAllFrom parent depth next drafts, holds node.draft) →
      ∀ draft ∈ drafts, Throughout Draft.children holds draft
  | [], _, _, _, _ => List.forall_mem_nil _
  | draft :: rest, parent, depth, next, every => by
      rw [numberAllFrom] at every
      obtain ⟨here, later⟩ := List.forall_mem_append.mp every
      exact List.forall_mem_cons.mpr ⟨throughout_of_numberFrom draft _ _ _ here,
        throughout_of_numberAllFrom rest _ _ _ later⟩
end

instance (holds : Draft → Prop) [DecidablePred holds] (draft : Draft) :
    Decidable (Throughout Draft.children holds draft) :=
  decidable_of_iff (∀ node ∈ numberFrom none 0 0 draft, holds node.draft)
    ⟨throughout_of_numberFrom draft none 0 0,
      fun throughout _ member => holds_of_mem_numberFrom throughout member⟩

/-- Drafts that each end before the next one begins are apart from all the later ones. -/
theorem pairwise_precedes_of_adjacent {drafts : List Draft}
    (ordered : ∀ draft ∈ drafts, draft.entry.Ordered)
    (adjacent : ∀ front left right back, drafts = front ++ left :: right :: back →
      left.entry.Precedes right.entry) :
    drafts.Pairwise fun left right => left.entry.Precedes right.entry := by
  induction drafts with
  | nil => exact .nil
  | cons first rest ih =>
      have apart := ih (fun draft later => ordered draft (.tail _ later)) fun front left right back
        split => adjacent (first :: front) left right back (by rw [split, List.cons_append])
      refine List.pairwise_cons.mpr ⟨?_, apart⟩
      intro other later
      cases rest with
      | nil => cases later
      | cons second beyond =>
          have next := adjacent [] first second beyond rfl
          rcases List.mem_cons.mp later with rfl | further
          · exact next
          · have inOrder := ordered second (.tail _ List.mem_cons_self)
            have runs := Position.le_trans inOrder.entryStart_le_start inOrder.start_le_stopOrStart
            exact Position.le_trans (Position.le_trans next runs)
              (List.rel_of_pairwise_cons apart further)

end Draft

namespace Tree

/-- The places of a tree are nested. -/
structure Nested (tree : Tree) : Prop where
  ordered : ∀ node ∈ tree.nodes, node.entry.Ordered
  /-- Every node but the root lies in its parent. -/
  encloses : ∀ node ∈ tree.nodes, node.isRoot = false →
    ∃ parent, tree.parent? node = some parent ∧ parent.entry.Encloses node.entry
  /-- Every node ends before the next one under the same parent begins. -/
  precedes : ∀ node ∈ tree.nodes, ∀ next, tree.nextSibling? node = some next →
    node.entry.Precedes next.entry

theorem nested_of_throughout {tree : Tree} (nested : tree.draft.Nested) : tree.Nested := by
  have nests : ∀ node ∈ tree.nodes, node.draft.Nests := fun node member =>
    Draft.holds_of_mem_numberFrom nested (mem_nodes_iff.mp member)
  refine ⟨fun node member => (nests node member).ordered, ?_, ?_⟩
  · intro node member below
    obtain ⟨parent, above⟩ := exists_parent?_of_isRoot_eq_false member below
    have held := mem_nodes_of_parent? above
    refine ⟨parent, above, (nests parent held).encloses node.draft ?_⟩
    rw [← map_draft_childrenOf held]
    exact List.mem_map_of_mem (mem_childrenOf_of_parent? member above)
  · intro node member next follows
    obtain ⟨parent, held, front, back, split⟩ := exists_adjacent_of_nextSibling? member follows
    have apart := (nests parent held).precedes
    rw [← map_draft_childrenOf held, split, List.map_append, List.pairwise_append] at apart
    exact List.rel_of_pairwise_cons apart.2.1 List.mem_cons_self

/-- A node of a nested tree and the nodes right below it are nested as drafts. -/
theorem Nested.nests {tree : Tree} (nested : tree.Nested) {node : Node}
    (member : node ∈ tree.nodes) : node.draft.Nests := by
  have held : ∀ child ∈ tree.childrenOf node, child ∈ tree.nodes := fun _ =>
    mem_nodes_of_mem_childrenOf
  refine ⟨nested.ordered node member, ?_, ?_⟩
  · intro draft below
    rw [← map_draft_childrenOf member] at below
    obtain ⟨child, listed, rfl⟩ := List.mem_map.mp below
    have above := parent?_of_mem_childrenOf member listed
    have inner : child.isRoot = false := by
      rw [childrenOf_eq member] at listed
      rw [Node.isRoot, Draft.parent_of_mem_siblingNodes listed]
      rfl
    obtain ⟨parent, found, encloses⟩ := nested.encloses child (held child listed) inner
    rw [above] at found
    obtain rfl := Option.some.inj found
    exact encloses
  · rw [← map_draft_childrenOf member]
    apply Draft.pairwise_precedes_of_adjacent
    · intro draft below
      obtain ⟨child, listed, rfl⟩ := List.mem_map.mp below
      exact nested.ordered child (held child listed)
    · intro front left right back split
      obtain ⟨before, after, found, _, rest⟩ := List.map_eq_append_iff.mp split
      obtain ⟨child, others, rfl, rfl, further⟩ := List.map_eq_cons_iff.mp rest
      obtain ⟨next, later, rfl, rfl, _⟩ := List.map_eq_cons_iff.mp further
      refine nested.precedes child (held child (by rw [found]; simp)) next ?_
      exact nextSibling?_of_adjacent member found

theorem Nested.draft {tree : Tree} (nested : tree.Nested) : tree.draft.Nested :=
  Draft.throughout_of_numberFrom tree.draft none 0 0 fun _ member =>
    nested.nests (mem_nodes_iff.mpr member)

end Tree

end Blueprint
