import Blueprint.Proofs.Conversion.Making

/-!
# Every parse tree has a well-formed document tree

Whatever a parser hands over, the document tree made of it keeps to a few rules
(`Tree.WellFormed`). Roles fit the node above: entries stand in mappings, items in sequences, and
both may be left over in an error region. Items are counted without gaps, a key goes with an entry's
role, and only a placeholder has no end. `Tree.wellFormed_ofParse` asks nothing of the parse tree:
neither its kinds, nor its flags, nor its offsets need to make sense.

A finished draft has not been given a role yet (`Draft.Finished`). That is what every way of making
a fragment keeps: drafts get their role when they are put into a container, and the error regions
that a wrapper hands on below its content have none.
-/

set_option autoImplicit false

namespace Blueprint

/-! ## The rules for one node -/

/-- A node follows the rules, and so do the roles of the nodes right below it. -/
structure Draft.FollowsRules (draft : Draft) : Prop where
  keyed_iff : draft.entry.keySpan.isSome = true ↔ ∃ name, draft.entry.role = .field name
  error_iff : draft.entry.isError = true ↔ draft.entry.kind = .error
  open_only : draft.entry.span.isOpen = true →
    draft.entry.kind = .scalar ∧ draft.children = [] ∧ draft.entry.value = some "" ∧
      draft.entry.scalarType = some .null
  no_document : ∀ child ∈ draft.children, child.entry.kind ≠ .document
  field_above : ∀ child ∈ draft.children, ∀ name, child.entry.role = .field name →
    draft.entry.kind = .mapping ∨ draft.entry.kind = .error
  item_above : ∀ child ∈ draft.children, ∀ number, child.entry.role = .item number →
    draft.entry.kind = .sequence ∨ draft.entry.kind = .error
  counted : ∃ count, draft.children.filterMap (fun child => child.entry.role.index?) =
    List.range count
  only_items : draft.entry.kind = .sequence → ∀ child ∈ draft.children,
    child.entry.role.index? = none → child.entry.kind = .error

namespace Draft

/-- A draft that follows the rules throughout. -/
abbrev WellFormed (draft : Draft) : Prop := Throughout Draft.children FollowsRules draft

/-- A well-formed draft that has an end and has not been put into its place yet. -/
structure Finished (draft : Draft) : Prop where
  wellFormed : draft.WellFormed
  loose : draft.entry.role = .loose
  ended : draft.entry.span.isOpen = false
  not_document : draft.entry.kind ≠ .document

theorem Finished.keySpan_eq_none {draft : Draft} (finished : draft.Finished) :
    draft.entry.keySpan = none := by
  rw [← Option.not_isSome_iff_eq_none, finished.wellFormed.here.keyed_iff]
  rintro ⟨name, isField⟩
  rw [finished.loose] at isField
  cases isField

/-- A draft in some place below another: it is no document. -/
structure Attached (draft : Draft) : Prop where
  wellFormed : draft.WellFormed
  not_document : draft.entry.kind ≠ .document

theorem Finished.attached {draft : Draft} (finished : draft.Finished) : draft.Attached :=
  ⟨finished.wellFormed, finished.not_document⟩

/-! ## Giving a draft its role -/

/-- A change of role and key alone keeps the rules, if it changes both together. -/
theorem WellFormed.withRole {draft : Draft} (wellFormed : draft.WellFormed) {role : Role}
    {keySpan : Option Span} (keyed_iff : keySpan.isSome = true ↔ ∃ name, role = .field name) :
    (draft.mapEntry fun entry => { entry with role, keySpan }).WellFormed := by
  have rules := wellFormed.here
  exact .intro ⟨keyed_iff, rules.error_iff, rules.open_only, rules.no_document, rules.field_above,
    rules.item_above, rules.counted, rules.only_items⟩ wellFormed.inner

theorem wellFormed_missing (place : Position) : (missing (.openAt place)).WellFormed := by
  refine .intro ⟨?_, ?_, fun _ => ⟨rfl, rfl, rfl, rfl⟩, List.forall_mem_nil _,
    List.forall_mem_nil _, List.forall_mem_nil _, ⟨0, rfl⟩, nofun⟩ (List.forall_mem_nil _)
  · simp [missing, scalar, Entry.ofKind]
  · simp [missing, scalar, Entry.ofKind]

theorem attached_asField {draft : Draft} (attached : draft.Attached) (name : String) (key : Span) :
    (draft.asField name (some key)).Attached :=
  ⟨attached.wellFormed.withRole (by simp), attached.not_document⟩

theorem asItem_eq {draft : Draft} (unkeyed : draft.entry.keySpan = none) (number : Nat) :
    draft.asItem number =
      draft.mapEntry fun entry => { entry with role := .item number, keySpan := none } := by
  rw [asItem, mapEntry, mapEntry, ← unkeyed]

theorem attached_asItem {draft : Draft} (attached : draft.Attached)
    (unkeyed : draft.entry.keySpan = none) (number : Nat) : (draft.asItem number).Attached := by
  rw [asItem_eq unkeyed]
  exact ⟨attached.wellFormed.withRole (by simp), attached.not_document⟩

/-- A node whose children are well formed is well formed if it follows the rules. -/
theorem wellFormed_node {entry : Entry} {children : List Draft}
    (rules : (node entry children).FollowsRules)
    (attached : ∀ child ∈ children, child.Attached) : (node entry children).WellFormed :=
  .intro rules fun child below => (attached child below).wellFormed

end Draft

/-! ## Fragments -/

namespace Fragment

/-- The drafts of a fragment are finished. -/
def WellFormed : Fragment → Prop
  | node draft => draft.Finished
  | pair entry => entry.span.isOpen = false ∧ ∀ value, entry.value = some value → value.Finished
  | item content _ => ∀ draft, content = some draft → draft.Finished
  | tag _ => True
  | token _ => True
  | skip => True

theorem finished_of_draft? {fragment : Fragment} {draft : Draft} (wellFormed : fragment.WellFormed)
    (finished : fragment.draft? = some draft) : draft.Finished := by
  rwa [eq_node_of_draft? finished] at wellFormed

/-! ### Entries and items -/

/-- An entry with or without a key. It never gets an item's role. -/
theorem attached_toField {entry : Pair} (wellFormed : (pair entry).WellFormed) :
    entry.toField.Attached ∧ entry.toField.entry.role.index? = none := by
  have value : (entry.value.getD (.missing (.openAt entry.span.stopOrStart))).Attached ∧
      (entry.value.getD (.missing (.openAt entry.span.stopOrStart))).entry.role = .loose := by
    cases held : entry.value with
    | none => exact ⟨⟨Draft.wellFormed_missing _, nofun⟩, rfl⟩
    | some draft =>
        have finished := wellFormed.2 draft held
        exact ⟨finished.attached, finished.loose⟩
  rw [Pair.toField]
  cases entry.key with
  | none => exact ⟨value.1, by rw [value.2]; rfl⟩
  | some key => exact ⟨Draft.attached_asField value.1 _ _, rfl⟩

theorem finished_toMapping {entry : Pair} (wellFormed : (pair entry).WellFormed) :
    entry.toMapping.Finished := by
  obtain ⟨attached, notItem⟩ := attached_toField wellFormed
  have single : ∀ child ∈ [entry.toField], child = entry.toField := fun _ => List.mem_singleton.mp
  have rules : entry.toMapping.FollowsRules := by
    refine ⟨by simp [Pair.toMapping, Entry.ofKind], by simp [Pair.toMapping, Entry.ofKind], ?_, ?_,
      fun _ _ _ _ => .inl rfl, ?_, ⟨0, ?_⟩, nofun⟩
    · intro isOpen
      rw [show entry.toMapping.entry.span = entry.span from rfl, wellFormed.1] at isOpen
      cases isOpen
    · intro child below
      rw [single child below]
      exact attached.not_document
    · intro child below number isItem
      rw [single child below] at isItem
      rw [isItem] at notItem
      cases notItem
    · simp [Pair.toMapping, notItem]
  refine ⟨Draft.wellFormed_node rules ?_, rfl, wellFormed.1, nofun⟩
  intro child below
  rw [single child below]
  exact attached

theorem attached_itemContent {content : Option Draft} {span : Span}
    (wellFormed : (item content span).WellFormed) (number : Nat) :
    ((itemContent content span).asItem number).Attached := by
  cases held : content with
  | none => exact Draft.attached_asItem ⟨Draft.wellFormed_missing _, nofun⟩ rfl number
  | some draft =>
      have finished := wellFormed draft held
      exact Draft.attached_asItem finished.attached finished.keySpan_eq_none number

/-! ### Containers -/

theorem attached_mappingChild? {fragment : Fragment} (wellFormed : fragment.WellFormed)
    {draft : Draft} (added : fragment.mappingChild? = some draft) :
    draft.Attached ∧ draft.entry.role.index? = none := by
  rcases mappingChild?_eq_some added with ⟨entry, rfl, rfl⟩ | ⟨content, rfl, rfl | rfl⟩
  · exact attached_toField wellFormed
  · have finished : draft.Finished := wellFormed
    exact ⟨finished.attached, by rw [finished.loose]; rfl⟩
  · exact ⟨Draft.attached_asField ⟨Draft.wellFormed_missing _, nofun⟩ _ _, rfl⟩

theorem finished_mapping {source : Text.LineTable} {label : ParseNode}
    {children : List (Visited Fragment)}
    (wellFormed : ∀ child ∈ children, child.result.WellFormed) :
    (mapping (label.spanIn source) label.kind children).Finished := by
  have entries : ∀ draft ∈ children.filterMap (fun child => child.result.mappingChild?),
      draft.Attached ∧ draft.entry.role.index? = none := by
    intro draft member
    obtain ⟨child, listed, added⟩ := List.mem_filterMap.mp member
    exact attached_mappingChild? (wellFormed child listed) added
  refine ⟨Draft.wellFormed_node ?_ fun draft member => (entries draft member).1, rfl, rfl, nofun⟩
  refine ⟨by simp [Entry.ofKind], by simp [Entry.ofKind], nofun,
    fun draft member => (entries draft member).1.not_document, fun _ _ _ _ => .inl rfl, ?_,
    ⟨0, ?_⟩, nofun⟩
  · intro draft member number isItem
    have notItem := (entries draft member).2
    rw [isItem] at notItem
    cases notItem
  · exact List.filterMap_eq_nil_iff.mpr fun draft member => (entries draft member).2

/-- Children of a sequence or an error region whose items are counted from `number` on. -/
structure Counted (number : Nat) (drafts : List Draft) : Prop where
  attached : ∀ draft ∈ drafts, draft.Attached
  counted : ∃ count, drafts.filterMap (fun draft => draft.entry.role.index?) =
    List.range' number count

theorem counted_nil (number : Nat) : Counted number [] := ⟨List.forall_mem_nil _, 0, rfl⟩

theorem Counted.cons_item {number : Nat} {drafts : List Draft}
    (counted : Counted (number + 1) drafts) {draft : Draft}
    (attached : (draft.asItem number).Attached) :
    Counted number (draft.asItem number :: drafts) := by
  obtain ⟨count, numbers⟩ := counted.counted
  refine ⟨List.forall_mem_cons.mpr ⟨attached, counted.attached⟩, count + 1, ?_⟩
  rw [List.filterMap_cons, numbers, List.range'_succ]
  rfl

theorem Counted.cons_other {number : Nat} {drafts : List Draft} (counted : Counted number drafts)
    {draft : Draft} (attached : draft.Attached) (other : draft.entry.role.index? = none) :
    Counted number (draft :: drafts) := by
  obtain ⟨count, numbers⟩ := counted.counted
  refine ⟨List.forall_mem_cons.mpr ⟨attached, counted.attached⟩, count, ?_⟩
  rw [List.filterMap_cons, other, numbers]

theorem counted_itemsFrom {children : List (Visited Fragment)}
    (wellFormed : ∀ child ∈ children, child.result.WellFormed) (number : Nat) :
    Counted number (itemsFrom number children) := by
  induction children generalizing number with
  | nil => exact counted_nil number
  | cons child rest ih =>
      obtain ⟨here, later⟩ := List.forall_mem_cons.mp wellFormed
      obtain ⟨kind, field, result⟩ := child
      cases result with
      | node draft =>
          have finished : draft.Finished := here
          simp only [itemsFrom]
          split
          · exact (ih later number).cons_other finished.attached (by rw [finished.loose]; rfl)
          · exact (ih later (number + 1)).cons_item
              (Draft.attached_asItem finished.attached finished.keySpan_eq_none number)
      | pair entry =>
          have finished := finished_toMapping here
          exact (ih later (number + 1)).cons_item
            (Draft.attached_asItem finished.attached finished.keySpan_eq_none number)
      | item content span =>
          exact (ih later (number + 1)).cons_item (attached_itemContent here number)
      | tag type => exact ih later number
      | token kind => exact ih later number
      | skip => exact ih later number

/-- What a sequence holds besides its items are error regions, and nothing in it is an entry. -/
theorem role_of_mem_itemsFrom {children : List (Visited Fragment)}
    (wellFormed : ∀ child ∈ children, child.result.WellFormed) {number : Nat} {draft : Draft}
    (member : draft ∈ itemsFrom number children) :
    (∃ place, draft.entry.role = .item place) ∨
      (draft.entry.role = .loose ∧ draft.entry.kind = .error) := by
  induction children generalizing number with
  | nil => cases member
  | cons child rest ih =>
      obtain ⟨here, later⟩ := List.forall_mem_cons.mp wellFormed
      obtain ⟨kind, field, result⟩ := child
      have ofItem : ∀ {content : Draft},
          draft ∈ content.asItem number :: itemsFrom (number + 1) rest →
            (∃ place, draft.entry.role = .item place) ∨
              (draft.entry.role = .loose ∧ draft.entry.kind = .error) := by
        intro content listed
        rcases List.mem_cons.mp listed with rfl | after
        · exact .inl ⟨number, rfl⟩
        · exact ih later after
      cases result with
      | node content =>
          have finished : content.Finished := here
          simp only [itemsFrom] at member
          split at member
          · next isError =>
              rcases List.mem_cons.mp member with rfl | after
              · exact .inr ⟨finished.loose, finished.wellFormed.here.error_iff.mp isError⟩
              · exact ih later after
          · exact ofItem member
      | pair entry => exact ofItem member
      | item content span => exact ofItem member
      | tag type => exact ih later member
      | token kind => exact ih later member
      | skip => exact ih later member

theorem finished_sequence {source : Text.LineTable} {label : ParseNode}
    {children : List (Visited Fragment)}
    (wellFormed : ∀ child ∈ children, child.result.WellFormed) :
    (sequence (label.spanIn source) label.kind children).Finished := by
  have items := counted_itemsFrom wellFormed 0
  obtain ⟨count, numbers⟩ := items.counted
  refine ⟨Draft.wellFormed_node ?_ items.attached, rfl, rfl, nofun⟩
  refine ⟨by simp [Entry.ofKind], by simp [Entry.ofKind], nofun,
    fun draft member => (items.attached draft member).not_document, ?_,
    fun _ _ _ _ => .inl rfl, ⟨count, ?_⟩, ?_⟩
  · intro draft member name isField
    rcases role_of_mem_itemsFrom wellFormed member with ⟨place, isItem⟩ | ⟨isLoose, _⟩
    · rw [isItem] at isField
      cases isField
    · rw [isLoose] at isField
      cases isField
  · rw [List.range_eq_range']
    exact numbers
  · intro _ draft member notItem
    rcases role_of_mem_itemsFrom wellFormed member with ⟨place, isItem⟩ | ⟨_, isError⟩
    · rw [isItem] at notItem
      cases notItem
    · exact isError

/-! ### Error regions -/

/-- A scalar has nothing with a role below it, so it may become a key. -/
theorem attached_danglingKey {draft : Draft} (finished : draft.Finished)
    (isScalar : draft.entry.kind = .scalar) : (danglingKey draft).Attached := by
  have rules := finished.wellFormed.here
  refine ⟨.intro ⟨by simp [danglingKey, Draft.mapEntry], ?_, ?_, rules.no_document, ?_, ?_,
    rules.counted, nofun⟩ finished.wellFormed.inner, nofun⟩
  · have sound : draft.entry.isError = true ↔ NodeKind.scalar = .error :=
      isScalar ▸ rules.error_iff
    simp only [danglingKey, Draft.mapEntry, Draft.entry_node, sound, reduceCtorEq]
  · intro isOpen
    have ended := finished.ended
    rw [show (danglingKey draft).entry.span = draft.entry.span from rfl, ended] at isOpen
    cases isOpen
  · intro child below name isField
    have above := rules.field_above child below name isField
    rw [isScalar] at above
    rcases above with impossible | impossible <;> cases impossible
  · intro child below number isItem
    have above := rules.item_above child below number isItem
    rw [isScalar] at above
    rcases above with impossible | impossible <;> cases impossible

theorem counted_remainsFrom {children : List (Visited Fragment)}
    (wellFormed : ∀ child ∈ children, child.result.WellFormed) (number : Nat) :
    Counted number (remainsFrom number children) := by
  induction children generalizing number with
  | nil => exact counted_nil number
  | cons child rest ih =>
      obtain ⟨here, later⟩ := List.forall_mem_cons.mp wellFormed
      obtain ⟨kind, field, result⟩ := child
      cases result with
      | node draft =>
          have finished : draft.Finished := here
          simp only [remainsFrom]
          split
          · next keyed =>
              have isScalar := eq_of_beq (Bool.and_eq_true_iff.mp keyed).2
              exact (ih later number).cons_other (attached_danglingKey finished isScalar) rfl
          · exact (ih later number).cons_other finished.attached (by rw [finished.loose]; rfl)
      | pair entry =>
          obtain ⟨attached, notItem⟩ := attached_toField here
          exact (ih later number).cons_other attached notItem
      | item content span =>
          exact (ih later (number + 1)).cons_item (attached_itemContent here number)
      | tag type => exact ih later number
      | token kind => exact ih later number
      | skip => exact ih later number

theorem finished_errorRegion {source : Text.LineTable} {label : ParseNode}
    {children : List (Visited Fragment)}
    (wellFormed : ∀ child ∈ children, child.result.WellFormed) :
    (errorRegion (label.spanIn source) children).Finished := by
  have remains := counted_remainsFrom wellFormed 0
  obtain ⟨count, numbers⟩ := remains.counted
  refine ⟨Draft.wellFormed_node ?_ remains.attached, rfl, rfl, nofun⟩
  refine ⟨by simp [Entry.ofKind], by simp [Entry.ofKind], nofun,
    fun draft member => (remains.attached draft member).not_document, fun _ _ _ _ => .inr rfl,
    fun _ _ _ _ => .inr rfl, ⟨count, ?_⟩, nofun⟩
  rw [List.range_eq_range']
  exact numbers

/-! ### Wrappers -/

/-- Error regions without a role may be put below anything that has an end. -/
theorem finished_append {draft : Draft} (finished : draft.Finished) {more : List Draft}
    (errors : ∀ other ∈ more, other.Finished ∧ other.entry.isError = true) :
    (draft.append more).Finished := by
  have rules := finished.wellFormed.here
  have among : ∀ {holds : Draft → Prop}, (∀ child ∈ draft.children, holds child) →
      (∀ other ∈ more, holds other) → ∀ child ∈ (draft.append more).children, holds child := by
    intro holds own added child member
    exact (List.mem_append.mp member).elim (own child) (added child)
  have noRole : ∀ other ∈ more, other.entry.role = .loose := fun other member =>
    (errors other member).1.loose
  refine ⟨.intro ⟨rules.keyed_iff, rules.error_iff, ?_, ?_, ?_, ?_, ?_, ?_⟩ ?_, finished.loose,
    finished.ended, finished.not_document⟩
  · intro isOpen
    have ended := finished.ended
    rw [show (draft.append more).entry = draft.entry from rfl, ended] at isOpen
    cases isOpen
  · exact among rules.no_document fun other member => (errors other member).1.not_document
  · refine among rules.field_above fun other member name isField => ?_
    rw [noRole other member] at isField
    cases isField
  · refine among rules.item_above fun other member number isItem => ?_
    rw [noRole other member] at isItem
    cases isItem
  · obtain ⟨count, numbers⟩ := rules.counted
    have none_added : more.filterMap (fun child => child.entry.role.index?) = [] :=
      List.filterMap_eq_nil_iff.mpr fun other member => by rw [noRole other member]; rfl
    refine ⟨count, ?_⟩
    rw [Draft.append, Draft.children_node, List.filterMap_append, none_added, List.append_nil,
      numbers]
  · intro isSequence
    refine among (rules.only_items isSequence) fun other member _ => ?_
    obtain ⟨finished, isError⟩ := errors other member
    exact finished.wellFormed.here.error_iff.mp isError
  · exact among finished.wellFormed.inner fun other member => (errors other member).1.wellFormed

theorem collapse_wellFormed {children : List (Visited Fragment)}
    (wellFormed : ∀ child ∈ children, child.result.WellFormed) :
    (collapse children).WellFormed := by
  have finished : ∀ draft ∈ children.filterMap (fun child => child.result.draft?),
      draft.Finished := by
    intro draft member
    obtain ⟨child, listed, done⟩ := List.mem_filterMap.mp member
    exact finished_of_draft? (wellFormed child listed) done
  rw [collapse]
  cases drafts : children.filterMap fun child => child.result.draft? with
  | nil => trivial
  | cons first rest =>
      rw [drafts] at finished
      simp only
      split
      · next content found =>
          refine finished_append (finished content (List.mem_of_find?_eq_some found)) ?_
          intro other member
          obtain ⟨listed, isError⟩ := List.mem_filter.mp member
          exact ⟨finished other listed, isError⟩
      · next notFound =>
          refine finished_append (finished first List.mem_cons_self) ?_
          intro other member
          have listed := List.mem_cons_of_mem first member
          have isError := List.find?_eq_none.mp notFound other listed
          exact ⟨finished other listed, by simpa using isError⟩

/-! ### Waiting entries -/

theorem take_wellFormed {entry : Pair} (wellFormed : (pair entry).WellFormed)
    {child : Visited Fragment} (inside : child.result.WellFormed) :
    (pair (entry.take child)).WellFormed := by
  unfold Pair.take
  split
  · next field draft _ held =>
      have finished : draft.Finished := by rw [held] at inside; exact inside
      split
      · exact wellFormed
      · split
        · refine ⟨wellFormed.1, fun value same => ?_⟩
          obtain rfl := Option.some.inj same
          exact finished
        · exact wellFormed
  · next draft _ held =>
      have finished : draft.Finished := by rw [held] at inside; exact inside
      split
      · refine ⟨wellFormed.1, fun value same => ?_⟩
        obtain rfl := Option.some.inj same
        exact finished
      · exact wellFormed
  · exact wellFormed

theorem foldl_take_wellFormed {children : List (Visited Fragment)}
    (wellFormed : ∀ child ∈ children, child.result.WellFormed) {entry : Pair}
    (start : (pair entry).WellFormed) : (pair (children.foldl Pair.take entry)).WellFormed := by
  induction children generalizing entry with
  | nil => exact start
  | cons child rest ih =>
      obtain ⟨here, later⟩ := List.forall_mem_cons.mp wellFormed
      exact ih later (take_wellFormed start here)

/-! ## Whole parse trees -/

variable {format : Format} {source : Text.LineTable}

/-- Every way of making a fragment keeps its drafts finished. -/
theorem Made.wellFormed {label : ParseNode} {children : List (Visited Fragment)}
    {fragment : Fragment} (inside : ∀ child ∈ children, child.result.WellFormed)
    (made : Made format source label children fragment) : fragment.WellFormed := by
  cases made with
  | skip => trivial
  | token => trivial
  | tag type => trivial
  | scalar value type =>
      refine ⟨Draft.wellFormed_node ?_ (List.forall_mem_nil _), rfl, rfl, nofun⟩
      refine ⟨?_, ?_, nofun, List.forall_mem_nil _, List.forall_mem_nil _, List.forall_mem_nil _,
        ⟨0, rfl⟩, nofun⟩
      · simp [Draft.scalar, Entry.ofKind]
      · simp [Draft.scalar, Entry.ofKind]
  | error flagged => exact finished_errorRegion inside
  | mapping => exact finished_mapping inside
  | sequence => exact finished_sequence inside
  | pair isPair => exact foldl_take_wellFormed inside ⟨rfl, nofun⟩
  | item =>
      intro draft found
      obtain ⟨child, listed, done⟩ := List.exists_of_findSome?_eq_some found
      exact finished_of_draft? (inside child listed) done
  | wrapper isWrapper isKept =>
      subst isKept
      exact collapse_wellFormed fun child member =>
        inside child ((kept_sublist format label.kind children).subset member)

theorem fold_wellFormed (format : Format) (source : Text.LineTable) (tree : ParseTree) :
    (tree.fold (ofNode format source)).WellFormed :=
  ParseTree.fold_of_made (fun _ _ _ inside made => made.wellFormed inside) tree

/-- The content of a document is a finished draft, if there is any. -/
theorem toDocument_children (source : Text.LineTable) {content : Fragment}
    (wellFormed : content.WellFormed) :
    (content.toDocument source).children = [] ∨
      ∃ draft : Draft, draft.Finished ∧ (content.toDocument source).children = [draft] := by
  cases content with
  | node draft => exact .inr ⟨draft, wellFormed, rfl⟩
  | pair entry => exact .inr ⟨entry.toMapping, finished_toMapping wellFormed, rfl⟩
  | item content span => exact .inl rfl
  | tag type => exact .inl rfl
  | token kind => exact .inl rfl
  | skip => exact .inl rfl

theorem toDocument_wellFormed {content : Fragment} (wellFormed : content.WellFormed) :
    (content.toDocument source).WellFormed := by
  have finished : ∀ child ∈ (content.toDocument source).children, child.Finished := by
    rcases toDocument_children source wellFormed with empty | ⟨draft, done, single⟩
    · rw [empty]
      exact List.forall_mem_nil _
    · rw [single]
      intro child member
      rwa [List.mem_singleton.mp member]
  refine .intro ?_ fun child member => (finished child member).wellFormed
  refine ⟨by simp [toDocument, Entry.ofKind], by simp [toDocument, Entry.ofKind], nofun,
    fun child member => (finished child member).not_document, ?_, ?_, ⟨0, ?_⟩, nofun⟩
  · intro child member name isField
    rw [(finished child member).loose] at isField
    cases isField
  · intro child member number isItem
    rw [(finished child member).loose] at isItem
    cases isItem
  · exact List.filterMap_eq_nil_iff.mpr fun child member => by
      rw [(finished child member).loose]; rfl

end Fragment

/-! ## The rules for a tree -/

namespace Tree

/-- The rules that a document tree keeps to. -/
structure WellFormed (tree : Tree) : Prop where
  /-- The root is the document, and no other node is. -/
  document_iff : ∀ node ∈ tree.nodes, node.kind = .document ↔ node.isRoot = true
  root_loose : tree.root.role = .loose
  root_content : (tree.childrenOf tree.root).length ≤ 1
  /-- A key goes with the role of an entry. -/
  keyed_iff : ∀ node ∈ tree.nodes,
    node.entry.keySpan.isSome = true ↔ ∃ name, node.role = .field name
  field_above : ∀ node ∈ tree.nodes, ∀ name, node.role = .field name →
    ∃ parent, tree.parent? node = some parent ∧ (parent.kind = .mapping ∨ parent.kind = .error)
  item_above : ∀ node ∈ tree.nodes, ∀ number, node.role = .item number →
    ∃ parent, tree.parent? node = some parent ∧ (parent.kind = .sequence ∨ parent.kind = .error)
  /-- Items are counted from zero in the order of the children. -/
  counted : ∀ node ∈ tree.nodes, ∃ count,
    (tree.childrenOf node).filterMap (fun child => child.role.index?) = List.range count
  only_items : ∀ node ∈ tree.nodes, node.kind = .sequence → ∀ child ∈ tree.childrenOf node,
    child.role.index? = none → child.kind = .error
  error_iff : ∀ node ∈ tree.nodes, node.entry.isError = true ↔ node.kind = .error
  /-- Only a placeholder has no end. -/
  open_only : ∀ node ∈ tree.nodes, node.span.isOpen = true →
    node.kind = .scalar ∧ tree.childrenOf node = [] ∧ node.entry.value = some "" ∧
      node.entry.scalarType = some .null

variable {tree : Tree} {node : Node}

/-- What is said of the children of a draft holds of the children of its node. -/
theorem forall_childrenOf (holds : Entry → Prop) (member : node ∈ tree.nodes)
    (below : ∀ child ∈ node.draft.children, holds child.entry) :
    ∀ child ∈ tree.childrenOf node, holds child.entry := by
  intro child listed
  refine below child.draft ?_
  rw [← map_draft_childrenOf member]
  exact List.mem_map_of_mem listed

/-- What every draft says of those right below it holds between a node and its parent. -/
theorem exists_parent?_holds (holds : Entry → Entry → Prop) (member : node ∈ tree.nodes)
    (below : node.isRoot = false)
    (rules : ∀ other ∈ tree.nodes, ∀ child ∈ other.draft.children,
      holds other.entry child.entry) :
    ∃ parent, tree.parent? node = some parent ∧ holds parent.entry node.entry := by
  obtain ⟨parent, above⟩ := exists_parent?_of_isRoot_eq_false member below
  have held := mem_nodes_of_parent? above
  exact ⟨parent, above,
    forall_childrenOf _ held (rules parent held) node (mem_childrenOf_of_parent? member above)⟩

theorem wellFormed_of_throughout (wellFormed : tree.draft.WellFormed)
    (document : tree.draft.entry.kind = .document) (loose : tree.draft.entry.role = .loose)
    (content : tree.draft.children.length ≤ 1) : tree.WellFormed := by
  have rules : ∀ node ∈ tree.nodes, node.draft.FollowsRules := fun node member =>
    Draft.holds_of_mem_numberFrom wellFormed (mem_nodes_iff.mp member)
  have below : ∀ node ∈ tree.nodes, node.role ≠ .loose → node.isRoot = false := by
    intro node member role
    rw [← Bool.not_eq_true]
    intro isRoot
    rw [eq_root_of_isRoot member isRoot] at role
    exact role loose
  refine ⟨?_, loose, ?_, fun node member => (rules node member).keyed_iff, ?_, ?_, ?_, ?_,
    fun node member => (rules node member).error_iff, ?_⟩
  · intro node member
    refine ⟨fun isDocument => ?_, fun isRoot => ?_⟩
    · by_contra notRoot
      obtain ⟨parent, _, other⟩ := exists_parent?_holds (fun _ inner => inner.kind ≠ .document)
        member (Bool.not_eq_true _ ▸ notRoot) fun other held => (rules other held).no_document
      exact other isDocument
    · rw [eq_root_of_isRoot member isRoot]
      exact document
  · rw [← List.length_map Node.draft, map_draft_childrenOf (root_mem_nodes tree)]
    exact content
  · intro node member name isField
    obtain ⟨parent, above, fits⟩ := exists_parent?_holds
      (fun outer inner => ∀ name, inner.role = .field name →
        outer.kind = .mapping ∨ outer.kind = .error)
      member (below node member (by rw [isField]; nofun))
      fun other held => (rules other held).field_above
    exact ⟨parent, above, fits name isField⟩
  · intro node member number isItem
    obtain ⟨parent, above, fits⟩ := exists_parent?_holds
      (fun outer inner => ∀ number, inner.role = .item number →
        outer.kind = .sequence ∨ outer.kind = .error)
      member (below node member (by rw [isItem]; nofun))
      fun other held => (rules other held).item_above
    exact ⟨parent, above, fits number isItem⟩
  · intro node member
    obtain ⟨count, numbers⟩ := (rules node member).counted
    refine ⟨count, ?_⟩
    rw [← map_draft_childrenOf member, List.filterMap_map] at numbers
    exact numbers
  · intro node member isSequence
    exact forall_childrenOf (fun inner => inner.role.index? = none → inner.kind = .error)
      member ((rules node member).only_items isSequence)
  · intro node member isOpen
    obtain ⟨isScalar, leaf, value, type⟩ := (rules node member).open_only isOpen
    refine ⟨isScalar, ?_, value, type⟩
    rw [← List.map_eq_nil_iff (f := Node.draft), map_draft_childrenOf member, leaf]

/-- **Every parse tree has a well-formed document tree**, whatever its kinds, flags and offsets. -/
theorem wellFormed_ofParse (source : String) (format : Format) (parse : Parse) :
    (Tree.ofParse source format parse).WellFormed := by
  have content := Fragment.fold_wellFormed format (.ofText source.toList) parse.tree
  have draft_eq : (Tree.ofParse source format parse).draft =
      (parse.tree.fold (Fragment.ofNode format (.ofText source.toList))).toDocument
        (.ofText source.toList) := by
    rw [Tree.ofParse, Tree.ofDraft, ParseTree.toDraft, ParseTree.traverse_eq_some_fold,
      Option.getD_some]
  apply wellFormed_of_throughout
  · rw [draft_eq]
    exact Fragment.toDocument_wellFormed content
  · rw [draft_eq]
    rfl
  · rw [draft_eq]
    rfl
  · rw [draft_eq]
    rcases Fragment.toDocument_children (.ofText source.toList) content with
      empty | ⟨draft, _, single⟩
    · rw [empty]
      exact Nat.zero_le 1
    · rw [single]
      exact Nat.le_refl 1

end Tree

end Blueprint
