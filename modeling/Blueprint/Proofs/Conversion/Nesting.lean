import Blueprint.Fragment.Document
import Blueprint.Proofs.ParseTree.Walk
import Blueprint.Proofs.Tree.Nesting
import Mathlib.Tactic.MkIffOfInductiveProp

/-!
# Clean sources have nested trees

A parser that met no error hands over a tree whose nodes lie inside one another and follow one
another in the source (`ParseTree.InOrder`). The places of the document tree come from those of the
parse tree in many ways: from wrappers and from what they wrap, from whole entries, from keys alone,
and from the ends of entries where a placeholder goes. They are nested all the same
(`Tree.nested_ofParse`).

The invariant is about fragments: what a node amounts to keeps to the place of the node
(`Fragment.Fits`), and the fragments of siblings keep to places one after the other
(`Fragment.Queue`).
-/

set_option autoImplicit false

namespace Blueprint

/-! ## Parse trees in order -/

/-- Whether a kind of node is an entry of a mapping. -/
def Format.isPair : Format → String → Bool
  | .yaml, kind => ["block_mapping_pair", "flow_pair"].contains kind
  | .jsonc, kind => kind == "pair"

/-- Fields of siblings among which no key comes after a value. -/
abbrev KeyFirst (fields : List (Option String)) : Prop :=
  fields.Pairwise fun left right => left = some "value" → right ≠ some "key"

/-- A node of a parse tree that is no error, stands between two characters of the source each way,
and whose children stand in it one after the other; a key does not come after a value. -/
@[mk_iff] structure ParseTree.InOrder (format : Format) (source : List Char)
    (tree : ParseTree) : Prop where
  sound : tree.label.error = false
  start_bounded : (Text.cutAt source tree.label.start).isSome
  stop_bounded : (Text.cutAt source tree.label.stop).isSome
  start_le_stop : tree.label.start ≤ tree.label.stop
  inside : ∀ child ∈ tree.children,
    tree.label.start ≤ child.label.start ∧ child.label.stop ≤ tree.label.stop
  apart : tree.children.Pairwise fun left right => left.label.stop ≤ right.label.start
  key_first : format.isPair tree.label.kind = true →
    KeyFirst (tree.children.map fun child => child.label.field)

instance (format : Format) (source : List Char) (tree : ParseTree) :
    Decidable (tree.InOrder format source) :=
  decidable_of_iff _ (ParseTree.inOrder_iff format source tree).symm

namespace ParseTree

section Every

variable (holds : ParseTree → Prop) [DecidablePred holds]

mutual
/-- Whether every node of a tree passes a test. -/
def every : ParseTree → Bool
  | node label children => decide (holds (node label children)) && everyAmong children

/-- Whether every node of sibling trees passes a test. -/
def everyAmong : List ParseTree → Bool
  | [] => true
  | tree :: rest => every tree && everyAmong rest
end

mutual
theorem every_iff : ∀ tree : ParseTree,
    tree.every holds = true ↔ Throughout ParseTree.children holds tree
  | .node label children => by
      rw [every, Bool.and_eq_true, decide_eq_true_iff, everyAmong_iff children]
      exact ⟨fun test => .intro test.1 test.2,
        fun throughout => ⟨throughout.here, throughout.inner⟩⟩

theorem everyAmong_iff : ∀ trees : List ParseTree,
    everyAmong holds trees = true ↔ ∀ tree ∈ trees, Throughout ParseTree.children holds tree
  | [] => by simp [everyAmong]
  | tree :: rest => by
      rw [everyAmong, Bool.and_eq_true, every_iff tree, everyAmong_iff rest, List.forall_mem_cons]
end

instance (tree : ParseTree) : Decidable (Throughout ParseTree.children holds tree) :=
  decidable_of_iff _ (every_iff holds tree)

end Every

end ParseTree

/-! ## Drafts between two positions -/

/-- A span with an end, between two positions. -/
structure Span.Runs (low high : Position) (span : Span) (stop : Position) : Prop where
  stop_eq : span.stop = some stop
  low_le : low ≤ span.start
  start_le : span.start ≤ stop
  le_high : stop ≤ high

namespace Draft

/-- A draft between two positions that could be a key: it has an end, no key of its own, and is no
error. -/
structure Stands (low high : Position) (draft : Draft) : Prop extends Fits low high draft where
  sound : draft.entry.isError = false
  unkeyed : draft.entry.keySpan = none
  ended : ∃ stop, draft.entry.span.stop = some stop

variable {low middle high : Position} {draft : Draft}

theorem Stands.mono {low' high' : Position} (stands : draft.Stands low high) (lower : low' ≤ low)
    (upper : high ≤ high') : draft.Stands low' high' :=
  ⟨stands.toFits.mono lower upper, stands.sound, stands.unkeyed, stands.ended⟩

theorem Stands.runs (stands : draft.Stands low high) :
    ∃ stop, draft.entry.span.Runs low high stop := by
  obtain ⟨stop, ended⟩ := stands.ended
  have begun := stands.low_le
  have done := stands.le_high
  rw [Entry.entryStart, stands.unkeyed, Option.getD_none] at begun
  rw [Span.stopOrStart, ended, Option.getD_some] at done
  exact ⟨stop, ended, begun, stands.nested.here.ordered.start_le_stop stop ended, done⟩

/-- A node that takes up a place may hold whatever is lined up there. -/
theorem Lined.stands {entry : Entry} {drafts : List Draft} (lined : Lined low high drafts)
    (ordered : low ≤ high) (span : entry.span = .closed low high)
    (unkeyed : entry.keySpan = none) (sound : entry.isError = false) :
    (node entry drafts).Stands low high := by
  have inOrder : entry.Ordered := by
    refine ⟨?_, fun key keyed => ?_⟩
    · intro stop ended
      rw [span] at ended ⊢
      obtain rfl := Option.some.inj ended
      exact ordered
    · rw [unkeyed] at keyed
      cases keyed
  refine ⟨⟨lined.nested inOrder span, ?_, ?_⟩, sound, unkeyed, high, by rw [entry_node, span]; rfl⟩
  · rw [entry_node, Entry.entryStart, unkeyed, Option.getD_none, span]
    exact Position.le_refl _
  · rw [entry_node, span]
    exact Position.le_refl _

/-- A placeholder at the end of a place. -/
theorem missing_fits (ordered : low ≤ high) : (missing (.openAt high)).Fits low high := by
  have inOrder : (missing (.openAt high)).entry.Ordered :=
    ⟨fun stop ended => (by cases ended), fun key keyed => (by cases keyed)⟩
  exact ⟨nested_leaf inOrder, ordered, Position.le_refl _⟩

theorem Fits.asItem (fits : draft.Fits low high) (number : Nat) :
    (draft.asItem number).Fits low high := by
  have ordered := fits.nested.here.ordered
  exact ⟨fits.nested.withEntry ⟨ordered.start_le_stop, ordered.key_before⟩ rfl, fits.low_le,
    fits.le_high⟩

/-- A value after its key. -/
theorem Fits.asField (fits : draft.Fits middle high) (unkeyed : draft.entry.keySpan = none)
    {key : Span} {stop : Position} (runs : key.Runs low middle stop) (name : String) :
    (draft.asField name (some key)).Fits low high := by
  have begun := fits.low_le
  rw [Entry.entryStart, unkeyed, Option.getD_none] at begun
  have ordered : (draft.asField name (some key)).entry.Ordered := by
    refine ⟨fits.nested.here.ordered.start_le_stop, ?_⟩
    intro other same
    obtain rfl := Option.some.inj same
    exact ⟨stop, runs.stop_eq, runs.start_le, Position.le_trans runs.le_high begun⟩
  exact ⟨fits.nested.withEntry ordered rfl, runs.low_le, fits.le_high⟩

end Draft

/-! ## Fragments between two positions -/

/-- An entry whose key and value, as far as it has them, stand between two positions, the key
first. -/
structure Pair.Fits (low high : Position) (pair : Pair) (middle : Position) : Prop where
  low_le : low ≤ middle
  le_high : middle ≤ high
  key : ∀ name span, pair.key = some (name, span) → ∃ stop, span.Runs low middle stop
  value : ∀ draft, pair.value = some draft → draft.Stands middle high

/-- What an entry comes to: its value after its key, or a placeholder after it. -/
theorem Pair.toField_fits {low high middle : Position} {pair : Pair}
    (fits : pair.Fits low high middle) (span : pair.span = .closed low high) :
    pair.toField.Fits low high := by
  have value : (pair.value.getD (.missing (.openAt high))).Fits middle high ∧
      (pair.value.getD (.missing (.openAt high))).entry.keySpan = none := by
    cases held : pair.value with
    | none => exact ⟨Draft.missing_fits fits.le_high, rfl⟩
    | some draft =>
        have stands := fits.value draft held
        exact ⟨stands.toFits, stands.unkeyed⟩
  rw [toField, span]
  cases keyed : pair.key with
  | none => exact value.1.mono fits.low_le (Position.le_refl _)
  | some key =>
      obtain ⟨stop, runs⟩ := fits.key key.1 key.2 keyed
      exact value.1.asField value.2 runs key.1

namespace Fragment

/-- What is made of a fragment keeps between two positions. -/
def Fits (low high : Position) : Fragment → Prop
  | node draft => draft.Stands low high
  | pair entry =>
    ∃ start stop, low ≤ start ∧ stop ≤ high ∧ entry.span = .closed start stop ∧
      entry.toField.Fits start stop
  | item content span => (itemContent content span).Fits low high
  | tag _ => True
  | token _ => True
  | skip => True

/-- Fragments that keep to places one after the other. -/
def Queue (high : Position) : Position → List (Visited Fragment) → Prop
  | low, [] => low ≤ high
  | low, child :: rest =>
    ∃ start stop, low ≤ start ∧ start ≤ stop ∧ child.result.Fits start stop ∧
      Queue high stop rest

variable {low high : Position}

theorem Fits.mono {low' high' : Position} {fragment : Fragment} (fits : fragment.Fits low high)
    (lower : low' ≤ low) (upper : high ≤ high') : fragment.Fits low' high' := by
  cases fragment with
  | node draft => exact Draft.Stands.mono fits lower upper
  | pair entry =>
      obtain ⟨start, stop, begun, done, span, field⟩ := fits
      exact ⟨start, stop, Position.le_trans lower begun, Position.le_trans done upper, span, field⟩
  | item content span => exact Draft.Fits.mono fits lower upper
  | tag _ => trivial
  | token _ => trivial
  | skip => trivial

theorem Queue.low_le_high {children : List (Visited Fragment)} (queue : Queue high low children) :
    low ≤ high := by
  induction children generalizing low with
  | nil => exact queue
  | cons child rest ih =>
      obtain ⟨start, stop, begun, runs, _, later⟩ := queue
      exact Position.le_trans begun (Position.le_trans runs (ih later))

theorem Queue.fits {children : List (Visited Fragment)} (queue : Queue high low children) :
    ∀ child ∈ children, child.result.Fits low high := by
  induction children generalizing low with
  | nil => exact List.forall_mem_nil _
  | cons child rest ih =>
      obtain ⟨start, stop, begun, runs, fits, later⟩ := queue
      intro other member
      rcases List.mem_cons.mp member with rfl | behind
      · exact fits.mono begun later.low_le_high
      · exact (ih later other behind).mono (Position.le_trans begun runs) (Position.le_refl _)

theorem eq_node_of_draft? {fragment : Fragment} {draft : Draft}
    (finished : fragment.draft? = some draft) : fragment = node draft := by
  cases fragment with
  | node content => rw [Option.some.inj finished]
  | pair entry => cases finished
  | item content span => cases finished
  | tag type => cases finished
  | token kind => cases finished
  | skip => cases finished

theorem stands_of_draft? {fragment : Fragment} {draft : Draft} (fits : fragment.Fits low high)
    (finished : fragment.draft? = some draft) : draft.Stands low high := by
  rwa [eq_node_of_draft? finished] at fits

/-! ### Making drafts of fragments -/

theorem loneKey_fits {draft : Draft} (stands : draft.Stands low high) :
    (loneKey draft).Fits low high := by
  obtain ⟨stop, runs⟩ := stands.runs
  have place : draft.entry.span.stopOrStart = stop := by
    rw [Span.stopOrStart, runs.stop_eq, Option.getD_some]
  have key : draft.entry.span.Runs low stop stop :=
    ⟨runs.stop_eq, runs.low_le, runs.start_le, Position.le_refl _⟩
  have placeholder : (Draft.missing (.openAt stop)).Fits stop high :=
    (Draft.missing_fits (Position.le_refl stop)).mono (Position.le_refl _) runs.le_high
  rw [loneKey, place]
  exact placeholder.asField rfl key _

theorem toMapping_stands {entry : Pair} (fits : (pair entry).Fits low high) :
    entry.toMapping.Stands low high := by
  obtain ⟨start, stop, begun, done, span, field⟩ := fits
  have alone : Draft.Lined start stop [entry.toField] :=
    .cons field (Draft.lined_nil stop stop) (Position.le_refl _)
  have stands : entry.toMapping.Stands start stop :=
    alone.stands field.low_le_high span rfl rfl
  exact stands.mono begun done

/-- A fragment that adds a child to a mapping is an entry or a draft, and a draft is added as it is
or as a key without a value. -/
theorem mappingChild?_eq_some {fragment : Fragment} {draft : Draft}
    (added : fragment.mappingChild? = some draft) :
    (∃ entry, fragment = pair entry ∧ draft = entry.toField) ∨
      ∃ content, fragment = node content ∧ (draft = content ∨ draft = loneKey content) := by
  cases fragment with
  | pair entry => exact .inl ⟨entry, rfl, (Option.some.inj added).symm⟩
  | node content =>
      refine .inr ⟨content, rfl, ?_⟩
      by_cases isError : content.entry.isError = true
      · rw [mappingChild?, if_pos isError] at added
        exact .inl (Option.some.inj added).symm
      · rw [mappingChild?, if_neg isError] at added
        by_cases isScalar : (content.entry.kind == .scalar) = true
        · rw [if_pos isScalar] at added
          exact .inr (Option.some.inj added).symm
        · rw [if_neg isScalar] at added
          exact .inl (Option.some.inj added).symm
  | item content span => cases added
  | tag type => cases added
  | token kind => cases added
  | skip => cases added

/-- What a fragment adds to a mapping keeps to the place of the fragment. -/
theorem mappingChild?_fits {fragment : Fragment} (fits : fragment.Fits low high) {draft : Draft}
    (added : fragment.mappingChild? = some draft) : draft.Fits low high := by
  rcases mappingChild?_eq_some added with ⟨entry, rfl, rfl⟩ | ⟨content, rfl, rfl | rfl⟩
  · obtain ⟨start, stop, begun, done, _, field⟩ := fits
    exact field.mono begun done
  · exact Draft.Stands.toFits fits
  · exact loneKey_fits fits

theorem lined_entries {children : List (Visited Fragment)}
    (queue : Queue high low children) :
    Draft.Lined low high (children.filterMap fun child => child.result.mappingChild?) := by
  induction children generalizing low with
  | nil => exact Draft.lined_nil low high
  | cons child rest ih =>
      obtain ⟨start, stop, begun, runs, fits, later⟩ := queue
      have lined := ih later
      cases added : child.result.mappingChild? with
      | none =>
          rw [List.filterMap_cons, added]
          exact lined.mono (Position.le_trans begun runs)
      | some draft =>
          rw [List.filterMap_cons, added]
          exact .cons ((mappingChild?_fits fits added).mono begun (Position.le_refl _)) lined
            later.low_le_high

theorem lined_itemsFrom {children : List (Visited Fragment)} (queue : Queue high low children)
    (number : Nat) : Draft.Lined low high (itemsFrom number children) := by
  induction children generalizing low number with
  | nil => exact Draft.lined_nil low high
  | cons child rest ih =>
      obtain ⟨start, stop, begun, runs, fits, later⟩ := queue
      obtain ⟨kind, field, result⟩ := child
      have upper := later.low_le_high
      have skipped : Draft.Lined low high (itemsFrom number rest) :=
        (ih later number).mono (Position.le_trans begun runs)
      have kept : ∀ {draft : Draft}, draft.Fits start stop →
          Draft.Lined low high (draft.asItem number :: itemsFrom (number + 1) rest) := fun inside =>
        .cons ((inside.asItem number).mono begun (Position.le_refl _)) (ih later (number + 1)) upper
      cases result with
      | node draft =>
          have stands : draft.Stands start stop := fits
          simp only [itemsFrom, stands.sound, Bool.false_eq_true, if_false]
          exact kept stands.toFits
      | pair entry => exact kept (toMapping_stands fits).toFits
      | item content span => exact kept fits
      | tag type => exact skipped
      | token kind => exact skipped
      | skip => exact skipped

/-- A wrapper amounts to something that keeps to a place if its children do. -/
theorem collapse_fits {children : List (Visited Fragment)}
    (fits : ∀ child ∈ children, child.result.Fits low high) :
    (collapse children).Fits low high := by
  have stands : ∀ draft ∈ children.filterMap (fun child => child.result.draft?),
      draft.Stands low high := by
    intro draft member
    obtain ⟨child, listed, finished⟩ := List.mem_filterMap.mp member
    exact stands_of_draft? (fits child listed) finished
  rw [collapse]
  cases drafts : children.filterMap fun child => child.result.draft? with
  | nil => trivial
  | cons first rest =>
      rw [drafts] at stands
      have whole := stands first List.mem_cons_self
      have errors : (first :: rest).filter (fun draft => draft.entry.isError) = [] := by
        rw [List.filter_eq_nil_iff]
        intro draft member
        rw [(stands draft member).sound]
        exact Bool.false_ne_true
      have found : (first :: rest).find? (fun draft => !draft.entry.isError) = some first := by
        rw [List.find?_cons, whole.sound]
        rfl
      obtain ⟨entry, below⟩ := first
      simp only [found, errors, Draft.append, List.append_nil]
      exact whole

theorem keepFirstDocument_sublist (children : List (Visited Fragment)) :
    (Yaml.keepFirstDocument children).Sublist children := by
  induction children with
  | nil => exact .slnil
  | cons first rest ih =>
      rw [Yaml.keepFirstDocument]
      split
      · exact List.filter_sublist.cons_cons first
      · split
        · exact ih.cons_cons first
        · exact ih.cons first

theorem findSome?_draft?_fits {children : List (Visited Fragment)}
    (queue : Queue high low children) :
    (itemContent (children.findSome? fun child => child.result.draft?)
      (.closed low high)).Fits low high := by
  cases found : children.findSome? fun child => child.result.draft? with
  | none => exact Draft.missing_fits queue.low_le_high
  | some draft =>
      obtain ⟨child, listed, finished⟩ := List.exists_of_findSome?_eq_some found
      exact (stands_of_draft? (queue.fits child listed) finished).toFits

/-! ### Entries -/

/-- One more child of an entry, standing after the others. -/
theorem take_fits {here start stop middle : Position} {pair : Pair} {child : Visited Fragment}
    (fits : pair.Fits low here middle) (begun : here ≤ start) (runs : start ≤ stop)
    (inside : child.result.Fits start stop)
    (key_first : child.field = some "key" → pair.value = none) :
    ∃ middle, (pair.take child).Fits low stop middle := by
  have later : here ≤ stop := Position.le_trans begun runs
  have same : pair.Fits low stop middle :=
    ⟨fits.low_le, Position.le_trans fits.le_high later, fits.key, fun draft held =>
      (fits.value draft held).mono (Position.le_refl _) later⟩
  obtain ⟨kind, field, result⟩ := child
  cases result with
  | node draft =>
      have stands : draft.Stands start stop := inside
      have above : low ≤ start :=
        Position.le_trans fits.low_le (Position.le_trans fits.le_high begun)
      cases field with
      | none =>
          simp only [Pair.take, stands.sound, Bool.false_and, Bool.false_eq_true, if_false]
          exact ⟨middle, same⟩
      | some name =>
          simp only [Pair.take, beq_iff_eq]
          by_cases isKey : name = "key"
          · -- the key moves the middle to its own end; no value can be before it yet
            rw [if_pos isKey]
            obtain ⟨last, run⟩ := stands.runs
            refine ⟨stop, Position.le_trans above runs, Position.le_refl _, ?_, ?_⟩
            · intro text span keyed
              obtain ⟨rfl, rfl⟩ := Prod.mk.inj (Option.some.inj keyed)
              exact ⟨last, run.stop_eq, Position.le_trans above run.low_le, run.start_le,
                run.le_high⟩
            · intro value held
              rw [key_first (congrArg some isKey)] at held
              cases held
          · rw [if_neg isKey]
            by_cases isValue : name = "value"
            · rw [if_pos isValue]
              refine ⟨middle, fits.low_le, same.le_high, fits.key, ?_⟩
              intro value held
              obtain rfl := Option.some.inj held
              exact stands.mono (Position.le_trans fits.le_high begun) (Position.le_refl _)
            · rw [if_neg isValue]
              exact ⟨middle, same⟩
  | pair entry => cases field <;> exact ⟨middle, same⟩
  | item content span => cases field <;> exact ⟨middle, same⟩
  | tag type => cases field <;> exact ⟨middle, same⟩
  | token kind => cases field <;> exact ⟨middle, same⟩
  | skip => cases field <;> exact ⟨middle, same⟩

theorem span_take (pair : Pair) (child : Visited Fragment) :
    (pair.take child).span = pair.span := by
  unfold Pair.take
  split
  · split
    · rfl
    · split <;> rfl
  · split <;> rfl
  · rfl

theorem span_foldl_take (children : List (Visited Fragment)) (pair : Pair) :
    (children.foldl Pair.take pair).span = pair.span := by
  induction children generalizing pair with
  | nil => rfl
  | cons child rest ih => rw [List.foldl_cons, ih, span_take]

/-- A pair gets a value only from a child that is one. -/
theorem value_take {pair : Pair} {child : Visited Fragment} (fits : child.result.Fits low high)
    (other : child.field ≠ some "value") : (pair.take child).value = pair.value := by
  obtain ⟨kind, field, result⟩ := child
  cases result with
  | node draft =>
      have stands : draft.Stands low high := fits
      cases field with
      | none => simp [Pair.take, stands.sound]
      | some name =>
          have notValue : name ≠ "value" := fun same => other (congrArg some same)
          by_cases isKey : name = "key" <;> simp [Pair.take, isKey, notValue]
  | pair entry => cases field <;> rfl
  | item content span => cases field <;> rfl
  | tag type => cases field <;> rfl
  | token kind => cases field <;> rfl
  | skip => cases field <;> rfl

theorem foldl_take_fits {children : List (Visited Fragment)} {here middle : Position} {pair : Pair}
    (queue : Queue high here children) (fits : pair.Fits low here middle)
    (key_first : KeyFirst (children.map Visited.field))
    (no_value : pair.value = none ∨ ∀ child ∈ children, child.field ≠ some "key") :
    ∃ middle, (children.foldl Pair.take pair).Fits low high middle := by
  induction children generalizing here middle pair with
  | nil =>
      refine ⟨middle, fits.low_le, Position.le_trans fits.le_high queue, fits.key, ?_⟩
      intro draft held
      exact (fits.value draft held).mono (Position.le_refl _) queue
  | cons child rest ih =>
      obtain ⟨start, stop, begun, runs, inside, later⟩ := queue
      obtain ⟨apart, key_first⟩ := List.pairwise_cons.mp key_first
      have alone : child.field = some "key" → pair.value = none := by
        intro isKey
        exact no_value.resolve_right fun none_key => none_key child List.mem_cons_self isKey
      obtain ⟨middle, taken⟩ := take_fits fits begun runs inside alone
      refine ih later taken key_first ?_
      by_cases isValue : child.field = some "value"
      · exact .inr fun next member => apart next.field (List.mem_map_of_mem member) isValue
      · rw [value_take inside isValue]
        exact no_value.imp_right fun none_key next member =>
          none_key next (List.mem_cons_of_mem _ member)

theorem pair_ofChildren_fits {children : List (Visited Fragment)} (queue : Queue high low children)
    (key_first : KeyFirst (children.map Visited.field)) :
    (pair (.ofChildren (.closed low high) children)).Fits low high := by
  have empty : (⟨none, none, .closed low high⟩ : Pair).Fits low low low :=
    ⟨Position.le_refl _, Position.le_refl _, fun _ _ keyed => (by cases keyed),
      fun _ held => (by cases held)⟩
  obtain ⟨middle, fits⟩ := foldl_take_fits queue empty key_first (.inl rfl)
  have span : (Pair.ofChildren (.closed low high) children).span = .closed low high :=
    span_foldl_take children _
  exact ⟨low, high, Position.le_refl _, Position.le_refl _, span, Pair.toField_fits fits span⟩

/-! ### Named nodes -/

section Named

variable {source : Text.LineTable} {label : ParseNode} {children : List (Visited Fragment)}

theorem scalar_fits (ordered : low ≤ high) (value : String) (type : ScalarType) (kind : String) :
    (node ((Draft.scalar value type (.closed low high)).withConcreteKind kind)).Fits low high :=
  (Draft.lined_nil low high).stands ordered rfl rfl rfl

theorem mapping_fits (queue : Queue high low children) (kind : String) :
    (node (mapping (.closed low high) kind children)).Fits low high :=
  (lined_entries queue).stands queue.low_le_high rfl rfl rfl

theorem sequence_fits (queue : Queue high low children) (kind : String) :
    (node (sequence (.closed low high) kind children)).Fits low high :=
  (lined_itemsFrom queue 0).stands queue.low_le_high rfl rfl rfl

theorem yaml_ofNamed_fits (span : label.spanIn source = .closed low high)
    (queue : Queue high low children)
    (key_first : Format.yaml.isPair label.kind = true → KeyFirst (children.map Visited.field)) :
    (Yaml.ofNamed source label children).Fits low high := by
  have scalar := @scalar_fits low high queue.low_le_high
  unfold Yaml.ofNamed
  simp only [span]
  split
  · exact collapse_fits fun child member =>
      queue.fits child ((keepFirstDocument_sublist _).subset member)
  · exact collapse_fits queue.fits
  · exact collapse_fits queue.fits
  · exact collapse_fits queue.fits
  · exact mapping_fits queue _
  · exact mapping_fits queue _
  · next kind => exact pair_ofChildren_fits queue (key_first (by rw [kind]; rfl))
  · next kind => exact pair_ofChildren_fits queue (key_first (by rw [kind]; rfl))
  · exact sequence_fits queue _
  · exact sequence_fits queue _
  · exact findSome?_draft?_fits queue
  · exact scalar _ _ _
  · trivial
  · trivial
  · trivial
  · trivial
  · trivial
  · exact scalar _ _ _
  · exact scalar _ _ _
  · exact scalar _ _ _
  · exact scalar _ _ _
  · trivial

theorem jsonc_ofNamed_fits (span : label.spanIn source = .closed low high)
    (queue : Queue high low children)
    (key_first : Format.jsonc.isPair label.kind = true → KeyFirst (children.map Visited.field)) :
    (Jsonc.ofNamed source label children).Fits low high := by
  have scalar := @scalar_fits low high queue.low_le_high
  unfold Jsonc.ofNamed
  simp only [span]
  split
  · exact collapse_fits queue.fits
  · exact mapping_fits queue _
  · next kind => exact pair_ofChildren_fits queue (key_first (by rw [kind]; rfl))
  · exact sequence_fits queue _
  · exact scalar _ _ _
  · exact scalar _ _ _
  · exact scalar _ _ _
  · exact scalar _ _ _
  · exact scalar _ _ _
  · trivial

/-- What a sound node amounts to keeps to the place of the node if its children follow one another
there. -/
theorem ofNode_fits (format : Format) (sound : label.error = false)
    (span : label.spanIn source = .closed low high) (queue : Queue high low children)
    (key_first : format.isPair label.kind = true → KeyFirst (children.map Visited.field)) :
    (ofNode format source label children).Fits low high := by
  unfold ofNode
  split
  · trivial
  · rw [sound, if_neg Bool.false_ne_true]
    split
    · trivial
    · cases format with
      | yaml => exact yaml_ofNamed_fits span queue key_first
      | jsonc => exact jsonc_ofNamed_fits span queue key_first

end Named

/-! ## Whole parse trees -/

section Trees

variable {format : Format} {source : List Char}

/-- Sibling trees one after the other, each of whose fragments keeps to its place. -/
theorem queue_foldAll (short : Text.byteLength source < 4294967296) {trees : List ParseTree}
    {start stop : Nat} (begun : (Text.cutAt source start).isSome)
    (done : (Text.cutAt source stop).isSome) (runs : start ≤ stop)
    (placed : ∀ tree ∈ trees, tree.InOrder format source)
    (inside : ∀ tree ∈ trees, start ≤ tree.label.start ∧ tree.label.stop ≤ stop)
    (apart : trees.Pairwise fun left right => left.label.stop ≤ right.label.start)
    (fits : ∀ tree ∈ trees, (tree.fold (ofNode format (.ofText source))).Fits
      (Text.placeAt source tree.label.start) (Text.placeAt source tree.label.stop)) :
    Queue (Text.placeAt source stop) (Text.placeAt source start)
      (ParseTree.foldAll (ofNode format (.ofText source)) trees) := by
  induction trees generalizing start with
  | nil => exact Text.placeAt_le_placeAt short begun done runs
  | cons tree rest ih =>
      obtain ⟨before, apart⟩ := List.pairwise_cons.mp apart
      have here := placed tree List.mem_cons_self
      have bounds := inside tree List.mem_cons_self
      refine ⟨_, _, Text.placeAt_le_placeAt short begun here.start_bounded bounds.1,
        Text.placeAt_le_placeAt short here.start_bounded here.stop_bounded here.start_le_stop,
        fits tree List.mem_cons_self, ?_⟩
      refine ih here.stop_bounded bounds.2 (fun other member => placed other (.tail _ member)) ?_
        apart fun other member => fits other (.tail _ member)
      intro other member
      exact ⟨before other member, (inside other (.tail _ member)).2⟩

/-- **What a node amounts to keeps to the place of the node.** -/
theorem fold_fits (short : Text.byteLength source < 4294967296) {tree : ParseTree}
    (inOrder : Throughout ParseTree.children (ParseTree.InOrder format source) tree) :
    (tree.fold (ofNode format (.ofText source))).Fits (Text.placeAt source tree.label.start)
      (Text.placeAt source tree.label.stop) := by
  induction inOrder with
  | @intro tree here inner ih =>
      obtain ⟨label, children⟩ := tree
      have queue := queue_foldAll short here.start_bounded here.stop_bounded here.start_le_stop
        (fun child below => (inner child below).here) here.inside here.apart ih
      rw [ParseTree.fold]
      refine ofNode_fits format here.sound rfl queue fun isPair => ?_
      rw [ParseTree.foldAll_eq_map, List.map_map]
      exact here.key_first isPair

/-- A document with a content that keeps to the text is nested. -/
theorem toDocument_nested {content : Fragment}
    (fits : content.Fits .first (Text.endOf source))
    (ordered : Position.first ≤ Text.endOf source) :
    (content.toDocument (.ofText source)).Nested := by
  have whole : ∀ {drafts : List Draft}, Draft.Lined .first (Text.endOf source) drafts →
      (Draft.node (.ofKind .document (.closed .first (Text.endOf source))) drafts).Nested :=
    fun lined => (lined.stands ordered rfl rfl rfl).nested
  have single : ∀ {draft : Draft}, draft.Fits .first (Text.endOf source) →
      Draft.Lined .first (Text.endOf source) [draft] := fun inside =>
    .cons inside (Draft.lined_nil _ _) (Position.le_refl _)
  cases content with
  | node draft => exact whole (single (Draft.Stands.toFits fits))
  | pair entry => exact whole (single (toMapping_stands fits).toFits)
  | item content span => exact whole (Draft.lined_nil _ _)
  | tag type => exact whole (Draft.lined_nil _ _)
  | token kind => exact whole (Draft.lined_nil _ _)
  | skip => exact whole (Draft.lined_nil _ _)

end Trees

end Fragment

/-- **Clean sources have nested trees**: if the nodes of a parse tree over fewer than 2^32 bytes are
sound, stand in their parents one after the other, and have no key after a value, then every entry
of the document tree is in order, lies in its parent, and ends before the next one begins. -/
theorem Tree.nested_ofParse (source : String) (format : Format) (parse : Parse)
    (short : Text.byteLength source.toList < 4294967296)
    (inOrder : Throughout ParseTree.children (ParseTree.InOrder format source.toList) parse.tree) :
    (Tree.ofParse source format parse).Nested := by
  have root := inOrder.here
  have empty := Text.isSome_cutAt_zero source.toList
  have full := Text.isSome_cutAt_byteLength source.toList
  have lower := Text.placeAt_le_placeAt short empty root.start_bounded (Nat.zero_le _)
  have upper := Text.placeAt_le_placeAt short root.stop_bounded full
    (Text.le_byteLength_of_isSome_cutAt root.stop_bounded)
  have whole := Text.placeAt_le_placeAt short empty full (Nat.zero_le _)
  have fits := (Fragment.fold_fits short inOrder).mono lower upper
  rw [Text.placeAt_zero, Text.placeAt_byteLength] at fits whole
  apply Tree.nested_of_throughout
  rw [Tree.ofParse, Tree.ofDraft, ParseTree.toDraft, ParseTree.traverse_eq_some_fold,
    Option.getD_some]
  exact Fragment.toDocument_nested fits whole

/-! ### A key without a value before another entry -/

namespace LoneKey

open ParseTree (sound punctuation)

def source : String := "é:\nb: 1"

/-- The entry of a letter of two bytes, with no value. -/
def lone : ParseTree :=
  sound "block_mapping_pair" none 0 3
    [sound "plain_scalar" (some "key") 0 2 [], punctuation ":" 2]

def whole : ParseTree :=
  sound "block_mapping_pair" none 4 8
    [sound "plain_scalar" (some "key") 4 5 [], punctuation ":" 5,
      sound "plain_scalar" (some "value") 7 8 [sound "integer_scalar" none 7 8 []]]

def mapping : ParseTree := sound "block_mapping" none 0 8 [lone, whole]

/-- The placeholder for the first value stands nested after its key, in the third column although
three bytes come before it, and the second entry begins behind it. -/
theorem nested_ofParse_loneKey :
    (Tree.ofParse source .yaml ⟨mapping, false⟩).nodes.map
        (fun node => (node.parent, node.entryStart, node.span)) =
        #[(none, ⟨1, 1⟩, .closed ⟨1, 1⟩ ⟨2, 5⟩), (some 0, ⟨1, 1⟩, .closed ⟨1, 1⟩ ⟨2, 5⟩),
          (some 1, ⟨1, 1⟩, .openAt ⟨1, 3⟩), (some 1, ⟨2, 1⟩, .closed ⟨2, 4⟩ ⟨2, 5⟩)] ∧
      (Tree.ofParse source .yaml ⟨mapping, false⟩).Nested :=
  ⟨by decide +kernel,
    Tree.nested_ofParse source .yaml ⟨mapping, false⟩ (by decide) (by decide +kernel)⟩

end LoneKey

end Blueprint
