import Blueprint.Proofs.Conversion.Making
import Blueprint.Proofs.Outline.Ranges

/-!
# Outlines of broken documents

An editor turns an outline down as a whole if some symbol's selected part is not inside the symbol.
For a broken document that comes down to where the error regions end up. An error region inside a
container, an entry or another region stays where it is in the source, and does no harm. A wrapper
that has an error region beside its content puts the region below the content, after everything that
is there, although it stands outside the content and perhaps before it. That can cut off a key in
two ways (`Draft.sparesKeys`). An entry that comes last in the content ends where a region from in
front of the content starts, before its own key (`Outline.Directive.not_selectsWithin`). And an
entry inside a region from behind the content ends where the content does. Where neither happens all
is well (`Outline.selectsWithin_of_orderly`).

The invariant is again about fragments and the places they keep to, but it asks for less than
nesting: what counts is that keys end in time (`Draft.Capped`). The region before the key of an
entry without a value, for one, becomes a value that stands before its key.
-/

set_option autoImplicit false

namespace Blueprint

/-! ## Parse trees with error regions -/

namespace Draft

/-- Whether the last node right below a draft shows a key. -/
def endsInKey (draft : Draft) : Bool := draft.children.getLast?.any showsKey

/-- Whether no key is cut off when the error regions among the drafts of a wrapper go below its
content. A region in front of the content does no harm if the last node below the content shows no
key, and a region behind it does none if it shows no key itself. -/
def sparesKeys (drafts : List Draft) : Bool :=
  match drafts.dropWhile fun draft => draft.entry.isError with
  | [] => drafts.tail.all fun region => !region.showsKey
  | content :: behind =>
    ((drafts.takeWhile fun draft => draft.entry.isError).isEmpty || !content.endsInKey) &&
      behind.all fun draft => !(draft.entry.isError && draft.showsKey)

end Draft

namespace ParseTree

/-- A node of a parse tree over a source, sound or not, whose children stand in it one after the
other. -/
@[mk_iff] structure Arranged (source : List Char) (tree : ParseTree) : Prop where
  start_le_stop : tree.label.start ≤ tree.label.stop
  stop_le : tree.label.stop ≤ Text.byteLength source
  inside : ∀ child ∈ tree.children,
    tree.label.start ≤ child.label.start ∧ child.label.stop ≤ tree.label.stop
  apart : tree.children.Pairwise fun left right => left.label.stop ≤ right.label.start

/-- The drafts among which a wrapper finds its content. -/
def contents (format : Format) (source : List Char) (tree : ParseTree) : List Draft :=
  (format.kept tree.label.kind
    (foldAll (Fragment.ofNode format (.ofText source)) tree.children)).filterMap fun child =>
      child.result.draft?

/-- A node that moreover stands between two characters of the source each way, has no key after a
value, and spares the keys of its content if it is a wrapper. -/
@[mk_iff] structure Orderly (format : Format) (source : List Char) (tree : ParseTree) : Prop
    extends Arranged source tree where
  start_bounded : (Text.cutAt source tree.label.start).isSome
  stop_bounded : (Text.cutAt source tree.label.stop).isSome
  key_first : format.isPair tree.label.kind = true →
    KeyFirst (tree.children.map fun child => child.label.field)
  spares_keys : format.isWrapper tree.label.kind = true →
    Draft.sparesKeys (tree.contents format source) = true

instance (source : List Char) (tree : ParseTree) : Decidable (tree.Arranged source) :=
  decidable_of_iff _ (arranged_iff source tree).symm

instance (format : Format) (source : List Char) (tree : ParseTree) :
    Decidable (tree.Orderly format source) :=
  decidable_of_iff _ (orderly_iff format source tree).symm

end ParseTree

/-! ## Drafts that end in time -/

namespace Draft

/-- A draft that begins after one position and ends before another. -/
structure Keeps (low high : Position) (draft : Draft) : Prop where
  capped : Throughout Draft.children Capped draft
  low_le : low ≤ draft.entry.entryStart
  le_high : draft.entry.span.stopOrStart ≤ high

/-- A draft between two positions that has not been put into its place yet. -/
structure Sits (low high : Position) (draft : Draft) : Prop where
  capped : Throughout Draft.children Capped draft
  runs : ∃ stop, draft.entry.span.Runs low high stop
  unkeyed : draft.entry.keySpan = none
  flagged : draft.entry.isError = true → draft.entry.kind = .error

variable {low middle high low' high' : Position} {draft : Draft}

theorem Keeps.mono (keeps : draft.Keeps low high) (lower : low' ≤ low) (upper : high ≤ high') :
    draft.Keeps low' high' :=
  ⟨keeps.capped, Position.le_trans lower keeps.low_le, Position.le_trans keeps.le_high upper⟩

theorem Sits.mono (sits : draft.Sits low high) (lower : low' ≤ low) (upper : high ≤ high') :
    draft.Sits low' high' := by
  obtain ⟨stop, ended, begun, runs, done⟩ := sits.runs
  exact ⟨sits.capped, ⟨stop, ended, Position.le_trans lower begun, runs,
    Position.le_trans done upper⟩, sits.unkeyed, sits.flagged⟩

theorem Sits.entryStart_eq (sits : draft.Sits low high) :
    draft.entry.entryStart = draft.entry.span.start := by
  rw [Entry.entryStart, sits.unkeyed, Option.getD_none]

theorem Sits.keeps (sits : draft.Sits low high) : draft.Keeps low high := by
  obtain ⟨stop, ended, begun, _, done⟩ := sits.runs
  refine ⟨sits.capped, ?_, Span.stopOrStart_of_stop ended ▸ done⟩
  rw [sits.entryStart_eq]
  exact begun

/-- Only the span of a node matters to the nodes below it. -/
theorem capped_withEntry (capped : Throughout Draft.children Capped draft) {entry : Entry}
    (same : entry.span = draft.entry.span)
    (key_ends : entry.kind ≠ .error → ∀ key, entry.keySpan = some key →
      ∃ stop, key.stop = some stop ∧ stop ≤ entry.span.stopOrStart) :
    Throughout Draft.children Capped (node entry draft.children) := by
  refine .intro ⟨key_ends, ?_, ?_, capped.here.precedes⟩ capped.inner
  · rw [entry_node, same]
    exact capped.here.open_leaf
  · rw [entry_node, same]
    exact capped.here.ends_inside

theorem Keeps.asItem (keeps : draft.Keeps low high) (number : Nat) :
    (draft.asItem number).Keeps low high :=
  ⟨capped_withEntry keeps.capped rfl keeps.capped.here.key_ends, keeps.low_le, keeps.le_high⟩

/-- A draft with a key in front of it, or an error region with a key anywhere. -/
theorem keeps_asField (capped : Throughout Draft.children Capped draft)
    (ends : draft.entry.span.stopOrStart ≤ high) {key : Span} {stop : Position}
    (ended : key.stop = some stop) (begun : low ≤ key.start)
    (before : draft.entry.kind ≠ .error → stop ≤ draft.entry.span.stopOrStart) (name : String) :
    (draft.asField name (some key)).Keeps low high := by
  refine ⟨capped_withEntry capped rfl ?_, begun, ends⟩
  intro shown other same
  obtain rfl := Option.some.inj same
  exact ⟨stop, ended, before shown⟩

theorem capped_leaf {entry : Entry} (unkeyed : entry.keySpan = none) :
    Throughout Draft.children Capped (node entry []) := by
  refine .intro ⟨fun _ key keyed => ?_, fun _ => rfl, List.forall_mem_nil _, .nil⟩
    (List.forall_mem_nil _)
  rw [entry_node, unkeyed] at keyed
  cases keyed

theorem keeps_missing (ordered : low ≤ high) : (missing (.openAt high)).Keeps low high :=
  ⟨capped_leaf rfl, ordered, Position.le_refl _⟩

/-- Drafts that begin after one position, end before another, and end before the next begins. -/
structure KeepInLine (low high : Position) (drafts : List Draft) : Prop where
  keeps : ∀ draft ∈ drafts, draft.Keeps low high
  precedes : drafts.Pairwise fun left right => left.entry.Precedes right.entry

theorem keepInLine_nil (low high : Position) : KeepInLine low high [] :=
  ⟨List.forall_mem_nil _, .nil⟩

theorem KeepInLine.cons {rest : List Draft} (line : KeepInLine middle high rest)
    (keeps : draft.Keeps low middle) (lower : low ≤ middle) (upper : middle ≤ high) :
    KeepInLine low high (draft :: rest) := by
  refine ⟨List.forall_mem_cons.mpr ⟨keeps.mono (Position.le_refl _) upper, ?_⟩,
    List.pairwise_cons.mpr ⟨?_, line.precedes⟩⟩
  · intro other later
    exact (line.keeps other later).mono lower (Position.le_refl _)
  · intro other later
    exact Position.le_trans keeps.le_high (line.keeps other later).low_le

theorem KeepInLine.sublist {drafts fewer : List Draft} (line : KeepInLine low high drafts)
    (sublist : fewer.Sublist drafts) : KeepInLine low high fewer :=
  ⟨fun draft member => line.keeps draft (sublist.subset member), line.precedes.sublist sublist⟩

theorem KeepInLine.mono {drafts : List Draft} (line : KeepInLine low high drafts)
    (lower : low' ≤ low) : KeepInLine low' high drafts :=
  ⟨fun draft member => (line.keeps draft member).mono lower (Position.le_refl _), line.precedes⟩

/-- A node that takes up a place may hold whatever keeps in line there. -/
theorem KeepInLine.sits {drafts : List Draft} (line : KeepInLine low high drafts) {entry : Entry}
    (span : entry.span = .closed low high) (ordered : low ≤ high)
    (unkeyed : entry.keySpan = none) (flagged : entry.isError = true → entry.kind = .error) :
    (node entry drafts).Sits low high := by
  refine ⟨.intro ⟨?_, ?_, ?_, line.precedes.isChain.imp fun _ _ before _ => before⟩
    fun child below => (line.keeps child below).capped, ?_, unkeyed, flagged⟩
  · intro _ key keyed
    rw [entry_node, unkeyed] at keyed
    cases keyed
  · rw [entry_node, span]
    nofun
  · intro child below _
    rw [entry_node, span]
    exact (line.keeps child below).le_high
  · rw [entry_node, span]
    exact ⟨high, rfl, Position.le_refl _, ordered, Position.le_refl _⟩

/-! ### Error regions below a content -/

/-- An error region that can go below a content without a key being cut off. -/
def Spares (content region : Draft) : Prop :=
  (region.entry.Precedes content.entry ∧ content.endsInKey = false) ∨
    (content.entry.Precedes region.entry ∧ region.showsKey = false)

theorem endsInKey_of_getLast? {last : Draft} (isLast : draft.children.getLast? = some last)
    (shows : last.showsKey = true) : draft.endsInKey = true := by
  rw [endsInKey, isLast, Option.any_some, shows]

/-- A region in front of the content ends before the content does. -/
theorem Sits.stopOrStart_le_of_spares (sits : draft.Sits low high) {region : Draft}
    (spares : draft.Spares region) (shows : region.showsKey = true) :
    region.entry.span.stopOrStart ≤ draft.entry.span.stopOrStart := by
  rcases spares with ⟨before, _⟩ | ⟨_, hidden⟩
  · obtain ⟨stop, ended, _, runs, _⟩ := sits.runs
    rw [Entry.Precedes, sits.entryStart_eq] at before
    exact Position.le_trans before (Span.stopOrStart_of_stop ended ▸ runs)
  · rw [hidden] at shows
    cases shows

/-- What shows a key last in the content comes before the regions below the content. -/
theorem Sits.precedes_of_spares (sits : draft.Sits low high) {last region : Draft}
    (isLast : draft.children.getLast? = some last) (spares : draft.Spares region)
    (shows : last.showsKey = true) : last.entry.Precedes region.entry := by
  rcases spares with ⟨_, hidden⟩ | ⟨before, _⟩
  · rw [endsInKey_of_getLast? isLast shows] at hidden
    cases hidden
  · exact Position.le_trans
      (sits.capped.here.ends_inside last (List.mem_of_getLast? isLast) shows) before

theorem Sits.append (sits : draft.Sits low high) {regions : List Draft}
    (line : KeepInLine low high regions) (spares : ∀ region ∈ regions, draft.Spares region) :
    (draft.append regions).Sits low high := by
  have here := sits.capped.here
  refine ⟨.intro ⟨here.key_ends, ?_, ?_, ?_⟩ ?_, sits.runs, sits.unkeyed, sits.flagged⟩
  · intro isOpen
    obtain ⟨stop, ended, _⟩ := sits.runs
    rw [Draft.append, entry_node, ended] at isOpen
    cases isOpen
  · refine List.forall_mem_append.mpr ⟨here.ends_inside, fun region member shows => ?_⟩
    exact sits.stopOrStart_le_of_spares (spares region member) shows
  · refine List.isChain_append.mpr ⟨here.precedes,
      line.precedes.isChain.imp fun _ _ before _ => before, ?_⟩
    intro last isLast region isFirst shows
    exact sits.precedes_of_spares isLast (spares region (List.mem_of_mem_head? isFirst)) shows
  · exact List.forall_mem_append.mpr ⟨sits.capped.inner, fun region member =>
      (line.keeps region member).capped⟩

/-- In front of the content and behind it no region cuts off a key. -/
theorem spares_of_sparesKeys {before behind : List Draft} {content region : Draft}
    (spares : sparesKeys (before ++ content :: behind) = true)
    (apart : (before ++ content :: behind).Pairwise fun left right =>
      left.entry.Precedes right.entry)
    (sound : content.entry.isError = false) (errors : ∀ other ∈ before, other.entry.isError = true)
    (member : region ∈ before ++ content :: behind) (isError : region.entry.isError = true) :
    content.Spares region := by
  have fromContent : (before ++ content :: behind).dropWhile (fun draft => draft.entry.isError) =
      content :: behind := by
    rw [List.dropWhile_append_of_pos errors, List.dropWhile_cons, if_neg (by simp [sound])]
  have upToContent : (before ++ content :: behind).takeWhile (fun draft => draft.entry.isError) =
      before := by
    rw [List.takeWhile_append_of_pos errors, List.takeWhile_cons, if_neg (by simp [sound]),
      List.append_nil]
  obtain ⟨_, after, across⟩ := List.pairwise_append.mp apart
  simp only [sparesKeys, fromContent, upToContent, Bool.and_eq_true, Bool.or_eq_true,
    List.isEmpty_iff, Bool.not_eq_true', List.all_eq_true] at spares
  rcases List.mem_append.mp member with front | back
  · refine .inl ⟨across region front content List.mem_cons_self, spares.1.resolve_left ?_⟩
    exact List.ne_nil_of_mem front
  · rcases List.mem_cons.mp back with rfl | later
    · rw [sound] at isError
      cases isError
    · refine .inr ⟨List.rel_of_pairwise_cons after later, ?_⟩
      have hidden := spares.2 region later
      rwa [isError, Bool.true_and] at hidden

/-- If there are error regions only, the first of them is the content. -/
theorem spares_of_sparesKeys_errors {first : Draft} {rest : List Draft}
    (spares : sparesKeys (first :: rest) = true)
    (apart : (first :: rest).Pairwise fun left right => left.entry.Precedes right.entry)
    (errors : ∀ other ∈ first :: rest, other.entry.isError = true) :
    ∀ region ∈ rest, first.Spares region := by
  intro region member
  have nothing : (first :: rest).dropWhile (fun draft => draft.entry.isError) = [] :=
    List.dropWhile_eq_nil_iff.mpr errors
  simp only [sparesKeys, nothing, List.tail_cons, List.all_eq_true, Bool.not_eq_true'] at spares
  exact .inr ⟨List.rel_of_pairwise_cons apart member, spares region member⟩

end Draft

/-! ## Fragments that end in time -/

/-- An entry whose key and value, as far as it has them, stand between two positions. A value that
is no error region comes after the key, which ends before `middle`. -/
structure Pair.Keeps (low high : Position) (pair : Pair) (middle : Position) : Prop where
  le_high : middle ≤ high
  key : ∀ name span, pair.key = some (name, span) → ∃ stop, span.Runs low middle stop
  value : ∀ draft, pair.value = some draft → draft.Sits low high
  value_after : ∀ draft, pair.value = some draft → draft.entry.kind ≠ .error →
    middle ≤ draft.entry.span.stopOrStart

theorem Pair.toField_keeps {low high middle : Position} {pair : Pair} (ordered : low ≤ high)
    (keeps : pair.Keeps low high middle) (span : pair.span = .closed low high) :
    pair.toField.Keeps low high := by
  have value : (pair.value.getD (.missing (.openAt high))).Keeps low high ∧
      ((pair.value.getD (.missing (.openAt high))).entry.kind ≠ .error →
        middle ≤ (pair.value.getD (.missing (.openAt high))).entry.span.stopOrStart) := by
    cases held : pair.value with
    | none => exact ⟨Draft.keeps_missing ordered, fun _ => keeps.le_high⟩
    | some draft => exact ⟨(keeps.value draft held).keeps, keeps.value_after draft held⟩
  rw [toField, span]
  cases keyed : pair.key with
  | none => exact value.1
  | some key =>
      obtain ⟨stop, runs⟩ := keeps.key key.1 key.2 keyed
      exact Draft.keeps_asField value.1.capped value.1.le_high runs.stop_eq runs.low_le
        (fun shown => Position.le_trans runs.le_high (value.2 shown)) key.1

namespace Fragment

/-- What is made of a fragment begins after one position and ends before another. -/
def Keeps (low high : Position) : Fragment → Prop
  | node draft => draft.Sits low high
  | pair entry =>
    ∃ start stop, low ≤ start ∧ start ≤ stop ∧ stop ≤ high ∧ entry.span = .closed start stop ∧
      entry.toField.Keeps start stop
  | item content span => (itemContent content span).Keeps low high
  | tag _ => True
  | token _ => True
  | skip => True

/-- Fragments that keep to places one after the other. -/
def KeepInLine (high : Position) : Position → List (Visited Fragment) → Prop
  | low, [] => low ≤ high
  | low, child :: rest =>
    ∃ start stop, low ≤ start ∧ start ≤ stop ∧ child.result.Keeps start stop ∧
      KeepInLine high stop rest

variable {low high : Position}

theorem Keeps.mono {low' high' : Position} {fragment : Fragment} (keeps : fragment.Keeps low high)
    (lower : low' ≤ low) (upper : high ≤ high') : fragment.Keeps low' high' := by
  cases fragment with
  | node draft => exact Draft.Sits.mono keeps lower upper
  | pair entry =>
      obtain ⟨start, stop, begun, runs, done, span, field⟩ := keeps
      exact ⟨start, stop, Position.le_trans lower begun, runs, Position.le_trans done upper, span,
        field⟩
  | item content span => exact Draft.Keeps.mono keeps lower upper
  | tag _ => trivial
  | token _ => trivial
  | skip => trivial

section Lines

variable {children : List (Visited Fragment)}

theorem KeepInLine.low_le_high (line : KeepInLine high low children) : low ≤ high := by
  induction children generalizing low with
  | nil => exact line
  | cons child rest ih =>
      obtain ⟨start, stop, begun, runs, _, later⟩ := line
      exact Position.le_trans begun (Position.le_trans runs (ih later))

theorem KeepInLine.keeps (line : KeepInLine high low children) :
    ∀ child ∈ children, child.result.Keeps low high := by
  induction children generalizing low with
  | nil => exact List.forall_mem_nil _
  | cons child rest ih =>
      obtain ⟨start, stop, begun, runs, here, later⟩ := line
      refine List.forall_mem_cons.mpr ⟨here.mono begun later.low_le_high, fun other behind => ?_⟩
      exact (ih later other behind).mono (Position.le_trans begun runs) (Position.le_refl _)

end Lines

theorem sits_of_draft? {fragment : Fragment} {draft : Draft} (keeps : fragment.Keeps low high)
    (finished : fragment.draft? = some draft) : draft.Sits low high := by
  rwa [eq_node_of_draft? finished] at keeps

/-! ### Making drafts of fragments -/

theorem loneKey_keeps {draft : Draft} (sits : draft.Sits low high) :
    (loneKey draft).Keeps low high := by
  obtain ⟨stop, ended, begun, _, done⟩ := sits.runs
  have place := Span.stopOrStart_of_stop ended
  have leaf : Throughout Draft.children Draft.Capped (Draft.missing (.openAt stop)) :=
    Draft.capped_leaf rfl
  rw [loneKey, place]
  exact Draft.keeps_asField leaf done ended begun (fun _ => Position.le_refl stop) _

/-- The key of a dangling key is the node itself. -/
theorem danglingKey_keeps {draft : Draft} (sits : draft.Sits low high) :
    (danglingKey draft).Keeps low high := by
  obtain ⟨stop, ended, begun, _, done⟩ := sits.runs
  have place := Span.stopOrStart_of_stop ended
  refine ⟨Draft.capped_withEntry sits.capped rfl ?_, begun, ?_⟩
  · intro _ key same
    obtain rfl := Option.some.inj same
    exact ⟨stop, ended, place ▸ Position.le_refl stop⟩
  · exact place ▸ done

theorem toMapping_sits {entry : Pair} (keeps : (pair entry).Keeps low high) :
    entry.toMapping.Sits low high := by
  obtain ⟨start, stop, begun, runs, done, span, field⟩ := keeps
  have alone : Draft.KeepInLine start stop [entry.toField] :=
    (Draft.keepInLine_nil stop stop).cons field runs (Position.le_refl _)
  have sits : entry.toMapping.Sits start stop := alone.sits span runs rfl nofun
  exact sits.mono begun done

theorem mappingChild?_keeps {fragment : Fragment} (keeps : fragment.Keeps low high) {draft : Draft}
    (added : fragment.mappingChild? = some draft) : draft.Keeps low high := by
  rcases mappingChild?_eq_some added with ⟨entry, rfl, rfl⟩ | ⟨content, rfl, rfl | rfl⟩
  · obtain ⟨start, stop, begun, _, done, _, field⟩ := keeps
    exact field.mono begun done
  · exact Draft.Sits.keeps keeps
  · exact loneKey_keeps keeps

section Containers

variable {children : List (Visited Fragment)}

/-- What is picked from fragments in line is in line. -/
theorem keepInLine_filterMap {pick : Fragment → Option Draft}
    (picked : ∀ {low high : Position} {fragment : Fragment} {draft : Draft},
      fragment.Keeps low high → pick fragment = some draft → draft.Keeps low high)
    (line : KeepInLine high low children) :
    Draft.KeepInLine low high (children.filterMap fun child => pick child.result) := by
  induction children generalizing low with
  | nil => exact Draft.keepInLine_nil low high
  | cons child rest ih =>
      obtain ⟨start, stop, begun, runs, here, later⟩ := line
      have lower := Position.le_trans begun runs
      cases found : pick child.result with
      | none =>
          rw [List.filterMap_cons, found]
          exact (ih later).mono lower
      | some draft =>
          rw [List.filterMap_cons, found]
          exact (ih later).cons ((picked here found).mono begun (Position.le_refl _)) lower
            later.low_le_high

theorem keepInLine_itemsFrom (line : KeepInLine high low children) (number : Nat) :
    Draft.KeepInLine low high (itemsFrom number children) := by
  induction children generalizing low number with
  | nil => exact Draft.keepInLine_nil low high
  | cons child rest ih =>
      obtain ⟨start, stop, begun, runs, here, later⟩ := line
      obtain ⟨kind, field, result⟩ := child
      have lower := Position.le_trans begun runs
      have skipped := (ih later number).mono lower
      have kept : ∀ {draft : Draft}, draft.Keeps start stop →
          Draft.KeepInLine low high (draft.asItem number :: itemsFrom (number + 1) rest) := by
        intro draft keeps
        exact (ih later (number + 1)).cons ((keeps.asItem number).mono begun (Position.le_refl _))
          lower later.low_le_high
      cases result with
      | node draft =>
          have sits : draft.Sits start stop := here
          simp only [itemsFrom]
          split
          · exact (ih later number).cons (sits.keeps.mono begun (Position.le_refl _)) lower
              later.low_le_high
          · exact kept sits.keeps
      | pair entry => exact kept (toMapping_sits here).keeps
      | item content span => exact kept here
      | tag type => exact skipped
      | token kind => exact skipped
      | skip => exact skipped

theorem keepInLine_remainsFrom (line : KeepInLine high low children) (number : Nat) :
    Draft.KeepInLine low high (remainsFrom number children) := by
  induction children generalizing low number with
  | nil => exact Draft.keepInLine_nil low high
  | cons child rest ih =>
      obtain ⟨start, stop, begun, runs, here, later⟩ := line
      obtain ⟨kind, field, result⟩ := child
      have lower := Position.le_trans begun runs
      have skipped := (ih later number).mono lower
      have kept : ∀ {draft : Draft} (count : Nat), draft.Keeps start stop →
          Draft.KeepInLine low high (draft :: remainsFrom count rest) := by
        intro draft count keeps
        exact (ih later count).cons (keeps.mono begun (Position.le_refl _)) lower later.low_le_high
      cases result with
      | node draft =>
          have sits : draft.Sits start stop := here
          simp only [remainsFrom]
          split
          · exact kept number (danglingKey_keeps sits)
          · exact kept number sits.keeps
      | pair entry =>
          obtain ⟨first, last, after, _, before, _, field⟩ := here
          exact kept number (field.mono after before)
      | item content span => exact kept (number + 1) (Draft.Keeps.asItem here number)
      | tag type => exact skipped
      | token kind => exact skipped
      | skip => exact skipped

theorem itemContent_keeps (line : KeepInLine high low children) :
    (itemContent (children.findSome? fun child => child.result.draft?)
      (.closed low high)).Keeps low high := by
  cases found : children.findSome? fun child => child.result.draft? with
  | none => exact Draft.keeps_missing line.low_le_high
  | some draft =>
      obtain ⟨child, listed, finished⟩ := List.exists_of_findSome?_eq_some found
      exact (sits_of_draft? (line.keeps child listed) finished).keeps

/-- The content of a wrapper keeps to its place with the error regions below it. -/
theorem collapse_keeps (keeps : ∀ child ∈ children, child.result.Keeps low high)
    (line : Draft.KeepInLine low high (children.filterMap fun child => child.result.draft?))
    (spares : Draft.sparesKeys (children.filterMap fun child => child.result.draft?) = true) :
    (collapse children).Keeps low high := by
  have sits : ∀ draft ∈ children.filterMap (fun child => child.result.draft?),
      draft.Sits low high := by
    intro draft member
    obtain ⟨child, listed, finished⟩ := List.mem_filterMap.mp member
    exact sits_of_draft? (keeps child listed) finished
  rw [collapse]
  cases drafts : children.filterMap fun child => child.result.draft? with
  | nil => trivial
  | cons first rest =>
      rw [drafts] at line spares sits
      simp only
      split
      · next content found =>
          have member := List.mem_of_find?_eq_some found
          obtain ⟨sound, before, behind, split, errors⟩ := List.find?_eq_some_iff_append.mp found
          refine (sits content member).append (line.sublist List.filter_sublist) ?_
          intro region listed
          obtain ⟨listed, isError⟩ := List.mem_filter.mp listed
          have apart := line.precedes
          rw [split] at spares apart listed
          exact Draft.spares_of_sparesKeys spares apart (by simpa using sound)
            (by simpa using errors) listed isError
      · next notFound =>
          refine (sits first List.mem_cons_self).append
            (line.sublist (List.sublist_cons_self first rest)) ?_
          exact Draft.spares_of_sparesKeys_errors spares line.precedes
            (by simpa using List.find?_eq_none.mp notFound)

end Containers

/-! ### Entries -/

/-- One more child of an entry, standing after the others. -/
theorem take_keeps {here start stop middle : Position} {pair : Pair} {child : Visited Fragment}
    (keeps : pair.Keeps low here middle) (above : low ≤ here) (begun : here ≤ start)
    (runs : start ≤ stop) (inside : child.result.Keeps start stop)
    (key_first : child.field = some "key" → ∀ draft, pair.value = some draft →
      draft.entry.kind = .error) :
    ∃ middle, (pair.take child).Keeps low stop middle := by
  have later : here ≤ stop := Position.le_trans begun runs
  have lower : low ≤ start := Position.le_trans above begun
  have same : pair.Keeps low stop middle :=
    ⟨Position.le_trans keeps.le_high later, keeps.key, fun draft held =>
      (keeps.value draft held).mono (Position.le_refl _) later, keeps.value_after⟩
  have withValue : ∀ {draft : Draft}, draft.Sits start stop →
      ({ pair with value := some draft } : Pair).Keeps low stop middle := by
    intro draft sits
    refine ⟨same.le_high, keeps.key, ?_, ?_⟩
    · intro value held
      obtain rfl := Option.some.inj held
      exact sits.mono lower (Position.le_refl _)
    · intro value held _
      obtain rfl := Option.some.inj held
      obtain ⟨last, ended, after, proper, _⟩ := sits.runs
      rw [Span.stopOrStart_of_stop ended]
      exact Position.le_trans keeps.le_high
        (Position.le_trans begun (Position.le_trans after proper))
  obtain ⟨kind, field, result⟩ := child
  cases result with
  | node draft =>
      have sits : draft.Sits start stop := inside
      cases field with
      | none =>
          simp only [Pair.take]
          split
          · exact ⟨middle, withValue sits⟩
          · exact ⟨middle, same⟩
      | some name =>
          simp only [Pair.take, beq_iff_eq]
          split
          · next isKey =>
              -- the middle moves to the end of the key; only an error region can be before it
              obtain ⟨last, ended, after, proper, before⟩ := sits.runs
              refine ⟨stop, Position.le_refl _, ?_, same.value, ?_⟩
              · intro text span keyed
                obtain ⟨rfl, rfl⟩ := Prod.mk.inj (Option.some.inj keyed)
                exact ⟨last, ended, Position.le_trans lower after, proper, before⟩
              · intro value held shown
                exact absurd (key_first (congrArg some isKey) value held) shown
          · split
            · exact ⟨middle, withValue sits⟩
            · exact ⟨middle, same⟩
  | pair entry => cases field <;> exact ⟨middle, same⟩
  | item content span => cases field <;> exact ⟨middle, same⟩
  | tag type => cases field <;> exact ⟨middle, same⟩
  | token kind => cases field <;> exact ⟨middle, same⟩
  | skip => cases field <;> exact ⟨middle, same⟩

/-- Apart from a child that is one, an entry takes only an error region for its value. -/
theorem isError_value_take {pair : Pair} {child : Visited Fragment}
    (keeps : child.result.Keeps low high) (other : child.field ≠ some "value")
    (before : ∀ draft, pair.value = some draft → draft.entry.kind = .error) :
    ∀ draft, (pair.take child).value = some draft → draft.entry.kind = .error := by
  obtain ⟨kind, field, result⟩ := child
  cases result with
  | node content =>
      have sits : content.Sits low high := keeps
      cases field with
      | none =>
          simp only [Pair.take]
          split
          · next isError =>
              intro draft held
              obtain rfl := Option.some.inj held
              exact sits.flagged (Bool.and_eq_true_iff.mp isError).1
          · exact before
      | some name =>
          have notValue : name ≠ "value" := fun same => other (congrArg some same)
          simp only [Pair.take, beq_iff_eq, if_neg notValue]
          split
          · exact before
          · exact before
  | pair entry => cases field <;> exact before
  | item content span => cases field <;> exact before
  | tag type => cases field <;> exact before
  | token kind => cases field <;> exact before
  | skip => cases field <;> exact before

theorem foldl_take_keeps {children : List (Visited Fragment)} {here middle : Position}
    {pair : Pair} (line : KeepInLine high here children) (above : low ≤ here)
    (keeps : pair.Keeps low here middle) (key_first : KeyFirst (children.map Visited.field))
    (no_value : (∀ draft, pair.value = some draft → draft.entry.kind = .error) ∨
      ∀ child ∈ children, child.field ≠ some "key") :
    ∃ middle, (children.foldl Pair.take pair).Keeps low high middle := by
  induction children generalizing here middle pair with
  | nil =>
      exact ⟨middle, Position.le_trans keeps.le_high line, keeps.key, fun draft held =>
        (keeps.value draft held).mono (Position.le_refl _) line, keeps.value_after⟩
  | cons child rest ih =>
      obtain ⟨start, stop, begun, runs, inside, later⟩ := line
      obtain ⟨apart, key_first⟩ := List.pairwise_cons.mp key_first
      have alone : child.field = some "key" → ∀ draft, pair.value = some draft →
          draft.entry.kind = .error := by
        intro isKey
        exact no_value.resolve_right fun none_key => none_key child List.mem_cons_self isKey
      obtain ⟨middle, taken⟩ := take_keeps keeps above begun runs inside alone
      refine ih later (Position.le_trans above (Position.le_trans begun runs)) taken key_first ?_
      by_cases isValue : child.field = some "value"
      · exact .inr fun next member => apart next.field (List.mem_map_of_mem member) isValue
      · exact no_value.imp (isError_value_take inside isValue) fun none_key next member =>
          none_key next (List.mem_cons_of_mem _ member)

theorem ofChildren_keeps {children : List (Visited Fragment)} (line : KeepInLine high low children)
    (key_first : KeyFirst (children.map Visited.field)) :
    (pair (.ofChildren (.closed low high) children)).Keeps low high := by
  have empty : (⟨none, none, .closed low high⟩ : Pair).Keeps low low low :=
    ⟨Position.le_refl _, nofun, nofun, nofun⟩
  obtain ⟨middle, keeps⟩ :=
    foldl_take_keeps line (Position.le_refl _) empty key_first (.inl nofun)
  have span : (Pair.ofChildren (.closed low high) children).span = .closed low high :=
    span_foldl_take children _
  exact ⟨low, high, Position.le_refl _, line.low_le_high, Position.le_refl _, span,
    Pair.toField_keeps line.low_le_high keeps span⟩

/-! ## Whole parse trees -/

/-- Every way of making a fragment keeps to the place of the node. -/
theorem Made.keeps {format : Format} {source : Text.LineTable} {label : ParseNode}
    {children : List (Visited Fragment)} {fragment : Fragment}
    (made : Made format source label children fragment)
    (span : label.spanIn source = .closed low high) (line : KeepInLine high low children)
    (key_first : format.isPair label.kind = true → KeyFirst (children.map Visited.field))
    (spares : format.isWrapper label.kind = true →
      Draft.sparesKeys ((format.kept label.kind children).filterMap fun child =>
        child.result.draft?) = true) :
    fragment.Keeps low high := by
  cases made with
  | skip => trivial
  | token => trivial
  | tag type => trivial
  | scalar value type =>
      rw [span]
      exact (Draft.keepInLine_nil low high).sits rfl line.low_le_high rfl nofun
  | error flagged =>
      rw [span]
      exact (keepInLine_remainsFrom line 0).sits rfl line.low_le_high rfl fun _ => rfl
  | mapping =>
      rw [span]
      have entries := keepInLine_filterMap (fun keeps added => mappingChild?_keeps keeps added) line
      exact entries.sits rfl line.low_le_high rfl nofun
  | sequence =>
      rw [span]
      exact (keepInLine_itemsFrom line 0).sits rfl line.low_le_high rfl nofun
  | pair isPair =>
      rw [span]
      exact ofChildren_keeps line (key_first isPair)
  | item =>
      rw [span]
      exact itemContent_keeps line
  | wrapper isWrapper isKept =>
      subst isKept
      have fewer := kept_sublist format label.kind children
      have whole : Draft.KeepInLine low high
          (children.filterMap fun child => child.result.draft?) :=
        keepInLine_filterMap (fun keeps found => (sits_of_draft? keeps found).keeps) line
      exact collapse_keeps (fun child member => line.keeps child (fewer.subset member))
        (whole.sublist (fewer.filterMap _)) (spares isWrapper)

section Trees

variable {format : Format} {source : List Char}

theorem keepInLine_foldAll (short : Text.byteLength source < 4294967296) {trees : List ParseTree}
    {start stop : Nat} (begun : (Text.cutAt source start).isSome)
    (done : (Text.cutAt source stop).isSome) (runs : start ≤ stop)
    (orderly : ∀ tree ∈ trees, tree.Orderly format source)
    (inside : ∀ tree ∈ trees, start ≤ tree.label.start ∧ tree.label.stop ≤ stop)
    (apart : trees.Pairwise fun left right => left.label.stop ≤ right.label.start)
    (keeps : ∀ tree ∈ trees, (tree.fold (ofNode format (.ofText source))).Keeps
      (Text.placeAt source tree.label.start) (Text.placeAt source tree.label.stop)) :
    KeepInLine (Text.placeAt source stop) (Text.placeAt source start)
      (ParseTree.foldAll (ofNode format (.ofText source)) trees) := by
  induction trees generalizing start with
  | nil => exact Text.placeAt_le_placeAt short begun done runs
  | cons tree rest ih =>
      obtain ⟨before, apart⟩ := List.pairwise_cons.mp apart
      obtain ⟨here, others⟩ := List.forall_mem_cons.mp orderly
      obtain ⟨bounds, within⟩ := List.forall_mem_cons.mp inside
      obtain ⟨first, further⟩ := List.forall_mem_cons.mp keeps
      refine ⟨_, _, Text.placeAt_le_placeAt short begun here.start_bounded bounds.1,
        Text.placeAt_le_placeAt short here.start_bounded here.stop_bounded here.start_le_stop,
        first, ?_⟩
      refine ih here.stop_bounded bounds.2 others ?_ apart further
      intro other member
      exact ⟨before other member, (within other member).2⟩

/-- **What a node amounts to, sound or not, keeps to the place of the node.** -/
theorem fold_keeps (short : Text.byteLength source < 4294967296) {tree : ParseTree}
    (orderly : Throughout ParseTree.children (ParseTree.Orderly format source) tree) :
    (tree.fold (ofNode format (.ofText source))).Keeps (Text.placeAt source tree.label.start)
      (Text.placeAt source tree.label.stop) := by
  induction orderly with
  | @intro tree here inner ih =>
      obtain ⟨label, children⟩ := tree
      have line := keepInLine_foldAll short here.start_bounded here.stop_bounded here.start_le_stop
        (fun child below => (inner child below).here) here.inside here.apart ih
      rw [ParseTree.fold]
      refine (ofNode_made _ label _ format).keeps rfl line (fun isPair => ?_) here.spares_keys
      rw [ParseTree.foldAll_eq_map, List.map_map]
      exact here.key_first isPair

/-- A document with a content that keeps to the text is capped throughout. -/
theorem toDocument_capped {content : Fragment} (keeps : content.Keeps .first (Text.endOf source))
    (ordered : Position.first ≤ Text.endOf source) :
    Throughout Draft.children Draft.Capped (content.toDocument (.ofText source)) := by
  have whole : ∀ {drafts : List Draft}, Draft.KeepInLine .first (Text.endOf source) drafts →
      Throughout Draft.children Draft.Capped
        (.node (.ofKind .document (.closed .first (Text.endOf source))) drafts) := by
    intro drafts line
    have sits : (Draft.node (.ofKind .document (.closed .first (Text.endOf source))) drafts).Sits
        .first (Text.endOf source) := line.sits rfl ordered rfl nofun
    exact sits.capped
  have single : ∀ {draft : Draft}, draft.Keeps .first (Text.endOf source) →
      Draft.KeepInLine .first (Text.endOf source) [draft] := fun inside =>
    (Draft.keepInLine_nil _ _).cons inside ordered (Position.le_refl _)
  cases content with
  | node draft => exact whole (single (Draft.Sits.keeps keeps))
  | pair entry => exact whole (single (toMapping_sits keeps).keeps)
  | item content span => exact whole (Draft.keepInLine_nil _ _)
  | tag type => exact whole (Draft.keepInLine_nil _ _)
  | token kind => exact whole (Draft.keepInLine_nil _ _)
  | skip => exact whole (Draft.keepInLine_nil _ _)

end Trees

end Fragment

namespace Outline

/-- **In the outline of a broken document every selected part lies in its symbol**, as long as the
nodes of the parse tree over fewer than 2^32 bytes stand in their parents one after the other, no
key comes after a value, and the error regions beside the content of a wrapper spare the keys. -/
theorem selectsWithin_of_orderly (source : String) (format : Format) (parse : Parse)
    (config : Config) (short : Text.byteLength source.toList < 4294967296)
    (orderly : Throughout ParseTree.children (ParseTree.Orderly format source.toList) parse.tree) :
    ∀ top ∈ ofDraft (Text.lineCount source.toList) config (Tree.ofParse source format parse).draft,
      ∀ symbol ∈ top.walk, symbol.SelectsWithin := by
  have root := orderly.here
  have empty := Text.isSome_cutAt_zero source.toList
  have full := Text.isSome_cutAt_byteLength source.toList
  have lower := Text.placeAt_le_placeAt short empty root.start_bounded (Nat.zero_le _)
  have upper := Text.placeAt_le_placeAt short root.stop_bounded full root.stop_le
  have whole := Text.placeAt_le_placeAt short empty full (Nat.zero_le _)
  have keeps := (Fragment.fold_keeps short orderly).mono lower upper
  rw [Text.placeAt_zero, Text.placeAt_byteLength] at keeps whole
  rw [Tree.ofParse, Tree.ofDraft, ParseTree.toDraft, ParseTree.traverse_eq_some_fold,
    Option.getD_some]
  exact selectsWithin_ofDraft _ config rfl whole (Nat.le_refl _)
    (Fragment.toDocument_capped keeps whole)

/-! ### Error regions before the document -/

namespace Broken

open ParseTree (sound)

/-- A scalar of one letter. -/
def letter (field type : String) (start : Nat) : ParseTree :=
  sound "flow_node" (some field) start (start + 1)
    [sound "plain_scalar" none start (start + 1) [sound type none start (start + 1) []]]

def entry (start stop : Nat) (children : List ParseTree) : ParseTree :=
  sound "block_mapping_pair" none start stop children

/-- A stream with an error region before its document. -/
def stream (before : ParseTree) (start stop : Nat) (entry : ParseTree) : ParseTree :=
  sound "stream" none 0 stop
    [before, sound "document" none start stop
      [sound "block_node" none start stop [sound "block_mapping" none start stop [entry]]]]

end Broken

namespace DoubleColon

open Broken ParseTree

def source : String := "a: b: c\n"

def tree : ParseTree :=
  stream (region 0 4 [entry 0 4 [letter "key" "string_scalar" 0, punctuation ":" 1,
    letter "value" "string_scalar" 3]]) 4 8
    (entry 4 7 [punctuation ":" 4, letter "value" "string_scalar" 6])

/-- The entry of the region comes after the value without a key, which is cut off at its start. -/
theorem selectsWithin_of_orderly_doubleColon :
    (ofDraft 2 {} (Tree.ofParse source .yaml ⟨tree, true⟩).draft).flatMap (fun top =>
        top.preorder.map fun symbol =>
          (symbol.entry.name, symbol.entry.span, symbol.entry.selection)) =
        [("document", .closed ⟨1, 1⟩ ⟨2, 1⟩, .closed ⟨1, 1⟩ ⟨2, 1⟩),
          ("content", .closed ⟨1, 5⟩ ⟨2, 1⟩, .closed ⟨1, 5⟩ ⟨2, 1⟩),
          ("content", .closed ⟨1, 7⟩ ⟨1, 7⟩, .closed ⟨1, 7⟩ ⟨1, 7⟩),
          ("a", .closed ⟨1, 1⟩ ⟨1, 5⟩, .closed ⟨1, 1⟩ ⟨1, 2⟩)] ∧
      ∀ top ∈ ofDraft (Text.lineCount source.toList) {}
        (Tree.ofParse source .yaml ⟨tree, true⟩).draft, ∀ symbol ∈ top.walk,
          symbol.SelectsWithin :=
  ⟨by decide +kernel, selectsWithin_of_orderly source .yaml ⟨tree, true⟩ {} (by decide)
    (by decide +kernel)⟩

end DoubleColon

namespace Directive

open Broken ParseTree

def source : String := "%bad\na: 1\n"

def tree : ParseTree :=
  stream (region 0 4 [sound "directive_name" none 0 4 []]) 5 10
    (entry 5 9 [letter "key" "string_scalar" 5, punctuation ":" 6,
      letter "value" "integer_scalar" 8])

/-- The region of the directive comes to stand after the entry `a`, so that the symbol of the entry
is cut off at its own start while its key is one character long. -/
theorem not_selectsWithin :
    Throughout ParseTree.children (ParseTree.Arranged source.toList) tree ∧
      ¬∀ top ∈ ofDraft (Text.lineCount source.toList) {}
        (Tree.ofParse source .yaml ⟨tree, true⟩).draft, ∀ symbol ∈ top.walk,
          symbol.SelectsWithin := by
  simp only [Symbol.walk_eq_preorder]
  decide +kernel

end Directive

end Outline

end Blueprint
