import Blueprint.Proofs.Outline.Walk
import Mathlib.Data.List.Chain

/-!
# The ranges of an outline

In the outline of a nested tree every symbol ends at or after its start, its selected part and the
symbols below it lie inside it, and sibling symbols are apart (`Outline.nests_of_nested`). This
includes symbols that come out of error regions and stand beside symbols from other depths.

Where a symbol ends is settled by what comes next: the start of the following draft, or else the end
of what is around. The argument keeps one bound in hand all the way down: a draft ends no later than
the place where the next symbol starts (`Draft.Lined`), so the symbols made of it fit before that
place (`Outline.lined_symbolsOf`).

The selected part needs less than nesting. A symbol without a key selects what is left of its node,
however early it is cut off, so only the nodes that show a key have to end in time (`Draft.Capped`).
Broken documents keep to that much more often.
-/

set_option autoImplicit false

namespace Blueprint

/-! ## Earlier and later positions -/

namespace Position

variable {first second third : Position}

theorem lt_iff_not_le : first < second ↔ ¬second ≤ first := by
  show _ ∨ _ ↔ ¬(_ ∨ _)
  omega

theorem le_total (first second : Position) : first ≤ second ∨ second ≤ first := by
  rw [le_iff, le_iff]
  omega

theorem le_max_left (first second : Position) : first ≤ max first second := by
  show first ≤ if first ≤ second then second else first
  split
  · assumption
  · exact le_refl first

theorem le_max_right (first second : Position) : second ≤ max first second := by
  show second ≤ if first ≤ second then second else first
  split
  · exact le_refl second
  · next later => exact (le_total first second).resolve_left later

theorem max_le (left : first ≤ third) (right : second ≤ third) : max first second ≤ third := by
  show (if first ≤ second then second else first) ≤ third
  split
  · exact right
  · exact left

theorem min_le_right (first second : Position) : min first second ≤ second := by
  show (if first ≤ second then first else second) ≤ second
  split
  · assumption
  · exact le_refl second

end Position

namespace Span

theorem stopOrStart_of_stop {span : Span} {stop : Position} (ended : span.stop = some stop) :
    span.stopOrStart = stop := by
  rw [stopOrStart, ended, Option.getD_some]

/-- A span lies in another; both have an end. -/
def Within (inner outer : Span) : Prop :=
  outer.start ≤ inner.start ∧
    ∃ innerStop outerStop, inner.stop = some innerStop ∧ outer.stop = some outerStop ∧
      innerStop ≤ outerStop

instance (inner outer : Span) : Decidable (inner.Within outer) :=
  decidable_of_iff (outer.start ≤ inner.start ∧
      inner.stop.any (fun innerStop => outer.stop.any fun outerStop => innerStop ≤ outerStop))
    (by simp [Within, Option.any_eq_true])

/-- A span has an end and does not end before it starts. -/
def Proper (span : Span) : Prop := ∃ stop, span.stop = some stop ∧ span.start ≤ stop

/-- A span ends before another starts. -/
def Before (left right : Span) : Prop := ∃ stop, left.stop = some stop ∧ stop ≤ right.start

end Span

/-! ## Outlines whose ranges nest -/

namespace Symbol

/-- The spans of a symbol and of those right below it are in order, inside one another and apart. -/
structure SpansNest (symbol : Symbol) : Prop where
  proper : symbol.entry.span.Proper
  within : ∀ child ∈ symbol.children, child.entry.span.Within symbol.entry.span
  apart : symbol.children.Pairwise fun left right => left.entry.span.Before right.entry.span

/-- The selected part of a symbol lies in the symbol. -/
def SelectsWithin (symbol : Symbol) : Prop := symbol.entry.selection.Within symbol.entry.span

instance (symbol : Symbol) : Decidable symbol.SelectsWithin :=
  inferInstanceAs (Decidable (Span.Within _ _))

/-- The ranges of a symbol nest. -/
structure Nests (symbol : Symbol) : Prop extends SpansNest symbol where
  selects : symbol.SelectsWithin

/-- A symbol between two positions whose spans nest throughout. -/
structure Fits (low high : Position) (symbol : Symbol) : Prop where
  nest : Throughout Symbol.children SpansNest symbol
  low_le : low ≤ symbol.entry.span.start
  le_high : ∃ stop, symbol.entry.span.stop = some stop ∧ stop ≤ high

/-- Symbols one after the other between two positions. -/
structure Lined (low high : Position) (symbols : List Symbol) : Prop where
  fits : ∀ symbol ∈ symbols, symbol.Fits low high
  apart : symbols.Pairwise fun left right => left.entry.span.Before right.entry.span

variable {low middle high : Position}

theorem lined_nil (low high : Position) : Lined low high [] := ⟨List.forall_mem_nil _, .nil⟩

theorem lined_singleton {symbol : Symbol} (fits : symbol.Fits low high) :
    Lined low high [symbol] :=
  ⟨fun _ member => List.mem_singleton.mp member ▸ fits, List.pairwise_singleton _ _⟩

theorem Fits.mono {low' high' : Position} {symbol : Symbol} (fits : symbol.Fits low high)
    (lower : low' ≤ low) (upper : high ≤ high') : symbol.Fits low' high' := by
  obtain ⟨stop, ended, bounded⟩ := fits.le_high
  exact ⟨fits.nest, Position.le_trans lower fits.low_le, stop, ended,
    Position.le_trans bounded upper⟩

theorem Lined.mono {low' : Position} {symbols : List Symbol} (lined : Lined low high symbols)
    (lower : low' ≤ low) : Lined low' high symbols :=
  ⟨fun symbol member => (lined.fits symbol member).mono lower (Position.le_refl _), lined.apart⟩

theorem Lined.append {left right : List Symbol} (before : Lined low middle left)
    (after : Lined middle high right) (lower : low ≤ middle) (upper : middle ≤ high) :
    Lined low high (left ++ right) := by
  refine ⟨List.forall_mem_append.mpr ⟨?_, ?_⟩, List.pairwise_append.mpr
    ⟨before.apart, after.apart, ?_⟩⟩
  · intro symbol member
    exact (before.fits symbol member).mono (Position.le_refl _) upper
  · intro symbol member
    exact (after.fits symbol member).mono lower (Position.le_refl _)
  · intro earlier member later listed
    obtain ⟨stop, ended, bounded⟩ := (before.fits earlier member).le_high
    exact ⟨stop, ended, Position.le_trans bounded (after.fits later listed).low_le⟩

/-- A symbol may hold whatever is lined up in its span. -/
theorem Lined.spansNest {entry : SymbolEntry} {symbols : List Symbol} {start stop : Position}
    (lined : Lined low high symbols) (span : entry.span = .closed start stop) (runs : start ≤ stop)
    (lower : start ≤ low) (upper : high ≤ stop) :
    Throughout Symbol.children SpansNest (node entry symbols) := by
  refine .intro ⟨?_, ?_, lined.apart⟩ fun child below => (lined.fits child below).nest
  · rw [entry_node, span]
    exact ⟨stop, rfl, runs⟩
  · intro child below
    have fits := (lined.fits child below).mono lower upper
    obtain ⟨last, ended, bounded⟩ := fits.le_high
    rw [entry_node, span]
    exact ⟨fits.low_le, last, stop, ended, rfl, bounded⟩

end Symbol

namespace Draft

theorem Nests.stopOrStart_le {draft : Draft} (nests : draft.Nests) :
    ∀ child ∈ draft.children, child.entry.span.stopOrStart ≤ draft.entry.span.stopOrStart := by
  intro child below
  obtain ⟨_, stop, ended, inside⟩ := nests.encloses child below
  exact Span.stopOrStart_of_stop ended ▸ inside

theorem Nests.children_eq_nil {draft : Draft} (nests : draft.Nests)
    (isOpen : draft.entry.span.stop = none) : draft.children = [] := by
  refine List.eq_nil_iff_forall_not_mem.mpr fun child below => ?_
  obtain ⟨_, stop, ended, _⟩ := nests.encloses child below
  rw [isOpen] at ended
  cases ended

end Draft

namespace Outline

variable (totalLines : Nat) (config : Config)

/-! ## Where a symbol ends -/

section Ends

variable {totalLines} {entry : Entry} {next : Position} {lastChild : Option Position}

/-- A symbol covers its node, up to where the next symbol starts. -/
theorem le_stopOf (bounded : entry.span.stopOrStart ≤ next)
    (childless : entry.span.stop = none → lastChild = none) :
    entry.span.stopOrStart ≤ stopOf totalLines (some next) lastChild entry := by
  refine Position.le_trans ?_ (Position.le_max_left _ _)
  simp only
  split
  · exact bounded
  · cases ended : entry.span.stop with
    | none =>
        rw [childless ended]
        exact bounded
    | some stop =>
        rw [Span.stopOrStart_of_stop ended]
        exact Position.le_refl stop

theorem stopOf_le (begun : entry.entryStart ≤ next) :
    stopOf totalLines (some next) lastChild entry ≤ next := by
  refine Position.max_le ?_ begun
  simp only
  split
  · exact Position.le_refl next
  · next inside =>
      rw [Position.lt_iff_not_le, not_not] at inside
      exact inside

/-- The selected part is the key or a part cut to the symbol, so only a key can go past it. -/
theorem selectsWithin_entryOf {next : Option Position} {children : List Symbol}
    (key_ends : ∀ key, entry.keySpan = some key → ∃ last stop, key.stop = some last ∧
      (entryOf totalLines config next children entry).span.stop = some stop ∧ last ≤ stop) :
    (Symbol.node (entryOf totalLines config next children entry) children).SelectsWithin := by
  cases keyed : entry.keySpan with
  | some key =>
      obtain ⟨last, stop, key_ended, ended, bounded⟩ := key_ends key keyed
      simp only [Symbol.SelectsWithin, Symbol.entry_node, Span.Within, entryOf, selectionOf,
        Entry.entryStart, keyed, Option.getD_some]
      simp only [entryOf, Entry.entryStart, keyed, Option.getD_some] at ended
      exact ⟨Position.le_refl _, last, stop, key_ended, ended, bounded⟩
  | none =>
      simp only [Symbol.SelectsWithin, Symbol.entry_node, Span.Within, entryOf, selectionOf, keyed,
        Option.getD_none]
      exact ⟨Position.le_max_right _ _, _, _, rfl, rfl, Position.min_le_right _ _⟩

end Ends

/-! ## What comes next -/

/-- Where the first of the drafts begins, or else the limit. -/
def firstStart (limit : Position) : List Draft → Position
  | [] => limit
  | draft :: _ => draft.entry.entryStart

theorem symbolsAmong_cons (limit : Position) (draft : Draft) (rest : List Draft) :
    symbolsAmong totalLines config (some limit) (draft :: rest) =
      symbolsOf totalLines config (some (firstStart limit rest)) draft ++
        symbolsAmong totalLines config (some limit) rest := by
  rw [symbolsAmong]
  cases rest with
  | nil => rfl
  | cons next later => rfl

theorem stopOrStart_le_firstStart {limit : Position} {draft : Draft} {rest : List Draft}
    (bounded : draft.entry.span.stopOrStart ≤ limit)
    (precedes : ∀ other ∈ rest, draft.entry.Precedes other.entry) :
    draft.entry.span.stopOrStart ≤ firstStart limit rest := by
  cases rest with
  | nil => exact bounded
  | cons next later => exact precedes next List.mem_cons_self

/-- Drafts that are lined up are lined up from where the first of them begins. -/
theorem lined_firstStart {low limit : Position} {drafts : List Draft}
    (lined : Draft.Lined low limit drafts) (runs : low ≤ limit) :
    low ≤ firstStart limit drafts ∧ firstStart limit drafts ≤ limit ∧
      Draft.Lined (firstStart limit drafts) limit drafts := by
  cases drafts with
  | nil => exact ⟨runs, Position.le_refl _, Draft.lined_nil _ _⟩
  | cons draft rest =>
      have fits := lined.fits draft List.mem_cons_self
      have ordered := fits.nested.here.ordered
      have covers := Position.le_trans ordered.entryStart_le_start ordered.start_le_stopOrStart
      refine ⟨fits.low_le, Position.le_trans covers fits.le_high, ?_, lined.precedes⟩
      intro other member
      refine ⟨(lined.fits other member).nested, ?_, (lined.fits other member).le_high⟩
      rcases List.mem_cons.mp member with rfl | later
      · exact Position.le_refl _
      · exact Position.le_trans covers (List.rel_of_pairwise_cons lined.precedes later)

/-! ## Nested drafts have nested outlines -/

/-- What is right below a nested node is lined up in it. -/
theorem lined_children {draft : Draft} (nested : draft.Nested) {stop : Position}
    (ended : draft.entry.span.stop = some stop) :
    Draft.Lined draft.entry.span.start stop draft.children := by
  refine ⟨fun child below => ?_, nested.here.precedes⟩
  obtain ⟨begun, last, same, bounded⟩ := nested.here.encloses child below
  rw [ended] at same
  obtain rfl := Option.some.inj same
  exact ⟨nested.inner child below, begun, bounded⟩

mutual
/-- The symbols of a nested draft fit between the start of the draft and what comes next. -/
theorem lined_symbolsOf : ∀ (draft : Draft) (next : Position), draft.Nested →
    draft.entry.span.stopOrStart ≤ next →
    Symbol.Lined draft.entry.entryStart next (symbolsOf totalLines config (some next) draft)
  | .node entry children, next, nested, bounded => by
      have ordered := nested.here.ordered
      have begun := ordered.entryStart_le_start
      have covers := Position.le_trans begun ordered.start_le_stopOrStart
      have runs := Position.le_trans covers bounded
      rw [Draft.entry_node] at *
      rw [symbolsOf]
      cases ended : entry.span.stop with
      | none =>
          obtain rfl : children = [] := nested.here.children_eq_nil ended
          split
          · rw [symbolsAmong]
            exact Symbol.lined_nil _ _
          · rw [symbolsAmong]
            refine Symbol.lined_singleton ⟨?_, Position.le_refl _, _, rfl, stopOf_le runs⟩
            exact (Symbol.lined_nil _ _).spansNest rfl (Position.le_max_right _ _)
              (Position.le_refl _) (Position.le_max_right _ _)
      | some stop =>
          have last := Span.stopOrStart_of_stop ended
          have inside := lined_children nested ended
          split
          · -- an error region gives way to what is inside it, which may go on until `next`
            rw [last] at bounded
            have wider : Draft.Lined entry.span.start next children :=
              ⟨fun child below => (inside.fits child below).mono (Position.le_refl _) bounded,
                inside.precedes⟩
            exact (lined_symbolsAmong children _ next wider (Position.le_trans
              (ordered.start_le_stop stop ended) bounded)).mono begun
          · have below := lined_symbolsAmong children _ stop inside
              (ordered.start_le_stop stop ended)
            rw [Option.some_or]
            have reaches := @le_stopOf totalLines entry next
              ((symbolsAmong totalLines config (some stop) children).getLast?.bind
                fun symbol => symbol.entry.span.stop) bounded (fun isOpen => by
                  rw [ended] at isOpen
                  cases isOpen)
            rw [last] at reaches
            refine Symbol.lined_singleton ⟨?_, Position.le_refl _, _, rfl, stopOf_le runs⟩
            exact below.spansNest rfl (Position.le_max_right _ _) begun reaches

/-- The symbols of drafts that are lined up are lined up between the same positions. -/
theorem lined_symbolsAmong : ∀ (drafts : List Draft) (low limit : Position),
    Draft.Lined low limit drafts → low ≤ limit →
    Symbol.Lined low limit (symbolsAmong totalLines config (some limit) drafts)
  | [], low, limit, _, _ => by
      rw [symbolsAmong]
      exact Symbol.lined_nil low limit
  | draft :: rest, low, limit, lined, runs => by
      obtain ⟨precedes, apart⟩ := List.pairwise_cons.mp lined.precedes
      have fits := lined.fits draft List.mem_cons_self
      have later : Draft.Lined low limit rest :=
        ⟨fun other member => lined.fits other (.tail _ member), apart⟩
      obtain ⟨above, before, fromFirst⟩ := lined_firstStart later runs
      rw [symbolsAmong_cons]
      have here := lined_symbolsOf draft _ fits.nested
        (stopOrStart_le_firstStart fits.le_high precedes)
      have after := lined_symbolsAmong rest _ limit fromFirst before
      exact (here.mono fits.low_le).append after above before
end

/-! ## What the selected part needs -/

end Outline

namespace Draft

mutual
/-- Whether a key is among what a draft shows: its own or, for an error region, one inside. -/
def showsKey : Draft → Bool
  | node entry children =>
    if entry.kind == .error then anyShowsKey children else entry.keySpan.isSome

/-- Whether a key is among what sibling drafts show. -/
def anyShowsKey : List Draft → Bool
  | [] => false
  | draft :: rest => draft.showsKey || anyShowsKey rest
end

theorem anyShowsKey_of_mem {drafts : List Draft} {draft : Draft} (member : draft ∈ drafts)
    (shows : draft.showsKey = true) : anyShowsKey drafts = true := by
  induction drafts with
  | nil => cases member
  | cons first rest ih =>
      rw [anyShowsKey, Bool.or_eq_true]
      rcases List.mem_cons.mp member with rfl | later
      · exact .inl shows
      · exact .inr (ih later)

/-- No key of a node that is shown goes past the node. Of what is right below a node, everything
that shows a key ends inside the node and before the next one begins. -/
structure Capped (draft : Draft) : Prop where
  key_ends : draft.entry.kind ≠ .error → ∀ key, draft.entry.keySpan = some key →
    ∃ stop, key.stop = some stop ∧ stop ≤ draft.entry.span.stopOrStart
  open_leaf : draft.entry.span.stop = none → draft.children = []
  ends_inside : ∀ child ∈ draft.children, child.showsKey = true →
    child.entry.span.stopOrStart ≤ draft.entry.span.stopOrStart
  precedes : draft.children.IsChain fun left right =>
    left.showsKey = true → left.entry.Precedes right.entry

theorem Nested.capped {draft : Draft} (nested : draft.Nested) :
    Throughout Draft.children Capped draft := by
  induction nested with
  | intro here _ ih =>
      refine .intro ⟨?_, here.children_eq_nil, fun child below _ => here.stopOrStart_le child below,
        here.precedes.isChain.imp fun _ _ before _ => before⟩ ih
      intro _ key keyed
      obtain ⟨stop, ended, _, before⟩ := here.ordered.key_before key keyed
      exact ⟨stop, ended, Position.le_trans before here.ordered.start_le_stopOrStart⟩

end Draft

namespace Outline

variable (totalLines : Nat) (config : Config)

mutual
/-- Wherever a draft without a key is cut off, and as long as one with a key is not cut off, the
selected parts stay inside their symbols. -/
theorem selectsWithin_symbolsOf : ∀ (draft : Draft) (next : Position),
    Throughout Draft.children Draft.Capped draft →
    (draft.showsKey = true → draft.entry.span.stopOrStart ≤ next) →
    ∀ symbol ∈ symbolsOf totalLines config (some next) draft,
      Throughout Symbol.children Symbol.SelectsWithin symbol
  | .node entry children, next, capped, bounded => by
      have here := capped.here
      rw [Draft.showsKey, Draft.entry_node] at bounded
      rw [symbolsOf]
      split
      · next isError =>
          -- what shows a key in an error region ends inside it, and so before `next`
          rw [if_pos isError] at bounded
          refine selectsWithin_symbolsAmong children next capped.inner ?_ here.precedes
          intro child below shows
          exact Position.le_trans (here.ends_inside child below shows)
            (bounded (Draft.anyShowsKey_of_mem below shows))
      · next shown =>
          rw [if_neg shown] at bounded
          have below : ∀ symbol ∈
              symbolsAmong totalLines config (entry.span.stop.or (some next)) children,
              Throughout Symbol.children Symbol.SelectsWithin symbol := by
            cases ended : entry.span.stop with
            | none =>
                rw [show children = [] from here.open_leaf ended, symbolsAmong]
                exact List.forall_mem_nil _
            | some stop =>
                refine selectsWithin_symbolsAmong children stop capped.inner ?_ here.precedes
                intro child listed shows
                exact Span.stopOrStart_of_stop ended ▸ here.ends_inside child listed shows
          intro symbol member
          obtain rfl := List.mem_singleton.mp member
          refine .intro (selectsWithin_entryOf config ?_) below
          intro key keyed
          obtain ⟨last, key_ended, inside⟩ :=
            here.key_ends (by simpa using shown) key keyed
          have ends := bounded (by rw [keyed]; rfl)
          refine ⟨last, _, key_ended, rfl, Position.le_trans inside (le_stopOf ends ?_)⟩
          intro isOpen
          rw [show children = [] from here.open_leaf isOpen, symbolsAmong]
          rfl

theorem selectsWithin_symbolsAmong : ∀ (drafts : List Draft) (limit : Position),
    (∀ draft ∈ drafts, Throughout Draft.children Draft.Capped draft) →
    (∀ draft ∈ drafts, draft.showsKey = true → draft.entry.span.stopOrStart ≤ limit) →
    (drafts.IsChain fun left right => left.showsKey = true → left.entry.Precedes right.entry) →
    ∀ symbol ∈ symbolsAmong totalLines config (some limit) drafts,
      Throughout Symbol.children Symbol.SelectsWithin symbol
  | [], limit, _, _, _ => by
      rw [symbolsAmong]
      exact List.forall_mem_nil _
  | draft :: rest, limit, capped, bounded, chain => by
      obtain ⟨here, later⟩ := List.forall_mem_cons.mp capped
      obtain ⟨ends, laterEnd⟩ := List.forall_mem_cons.mp bounded
      have before : draft.showsKey = true →
          draft.entry.span.stopOrStart ≤ firstStart limit rest := by
        intro shows
        cases rest with
        | nil => exact ends shows
        | cons next further => exact (List.isChain_cons_cons.mp chain).1 shows
      rw [symbolsAmong_cons]
      exact List.forall_mem_append.mpr
        ⟨selectsWithin_symbolsOf draft _ here before,
          selectsWithin_symbolsAmong rest limit later laterEnd chain.tail⟩
end

/-! ## The whole outline -/

/-- The symbol of the file covers the root when there are lines enough. -/
theorem stop_fileSpan {span : Span} {stop : Position} (ended : span.stop = some stop)
    (runs : span.start ≤ stop) (lines : stop.line ≤ totalLines) :
    ∃ last, fileSpan totalLines span = .closed span.start last ∧ stop ≤ last := by
  refine ⟨_, rfl, ?_⟩
  have enough : max totalLines span.start.line = totalLines := by
    rw [Position.le_iff] at runs
    omega
  simp only [ended, enough, Position.le_iff]
  split
  · next same =>
      rw [beq_iff_eq] at same
      exact .inr ⟨same, Nat.le_refl _⟩
  · next other =>
      rw [beq_iff_eq] at other
      omega

section Whole

variable {draft : Draft} {stop : Position} (ended : draft.entry.span.stop = some stop)
  (runs : draft.entry.span.start ≤ stop) (lines : stop.line ≤ totalLines)

include ended runs lines

/-- The symbol of the file selects itself, and covers what is right below the root. -/
theorem exists_ofDraft_eq : ∃ entry last,
    ofDraft totalLines config draft =
        [.node entry (symbolsAmong totalLines config (some last) draft.children)] ∧
      entry.span = .closed draft.entry.span.start last ∧ entry.selection = entry.span ∧
        stop ≤ last := by
  obtain ⟨last, span, covers⟩ := stop_fileSpan totalLines ended runs lines
  rw [ofDraft, span]
  exact ⟨_, last, rfl, rfl, rfl, covers⟩

theorem selectsWithin_ofDraft (capped : Throughout Draft.children Draft.Capped draft) :
    ∀ top ∈ ofDraft totalLines config draft, ∀ symbol ∈ top.walk, symbol.SelectsWithin := by
  obtain ⟨entry, last, single, span, selection, covers⟩ :=
    exists_ofDraft_eq totalLines config ended runs lines
  rw [single]
  intro top member
  obtain rfl := List.mem_singleton.mp member
  apply Symbol.holds_of_mem_walk
  refine .intro ?_ ?_
  · rw [Symbol.SelectsWithin, Symbol.entry_node, selection, span]
    exact ⟨Position.le_refl _, last, last, rfl, rfl, Position.le_refl _⟩
  · refine selectsWithin_symbolsAmong totalLines config draft.children last capped.inner ?_
      capped.here.precedes
    intro child below shows
    have inside := capped.here.ends_inside child below shows
    rw [Span.stopOrStart_of_stop ended] at inside
    exact Position.le_trans inside covers

theorem spansNest_ofDraft (nested : draft.Nested) :
    ∀ top ∈ ofDraft totalLines config draft, ∀ symbol ∈ top.walk, symbol.SpansNest := by
  obtain ⟨entry, last, single, span, _, covers⟩ :=
    exists_ofDraft_eq totalLines config ended runs lines
  have below : Draft.Lined draft.entry.span.start last draft.children := by
    obtain ⟨fits, precedes⟩ := lined_children nested ended
    exact ⟨fun child listed => (fits child listed).mono (Position.le_refl _) covers, precedes⟩
  have reaches := Position.le_trans runs covers
  rw [single]
  intro top member
  obtain rfl := List.mem_singleton.mp member
  apply Symbol.holds_of_mem_walk
  exact (lined_symbolsAmong totalLines config _ _ last below reaches).spansNest span reaches
    (Position.le_refl _) (Position.le_refl _)

end Whole

/-- **The ranges of an outline nest**: if the places of a tree are nested, its root has an end, and
there are at least as many lines as that end needs, then every symbol ends at or after its start,
its selected part and the symbols below it lie in it, and these are apart from one another. -/
theorem nests_of_nested (tree : Tree) (nested : tree.Nested) {stop : Position}
    (ended : tree.root.span.stop = some stop) (lines : stop.line ≤ totalLines) :
    ∀ top ∈ ofDraft totalLines config tree.draft, ∀ symbol ∈ top.walk, symbol.Nests := by
  have inside := nested.draft
  have runs := inside.here.ordered.start_le_stop stop ended
  intro top member symbol visited
  exact ⟨spansNest_ofDraft totalLines config ended runs lines inside top member symbol visited,
    selectsWithin_ofDraft totalLines config ended runs lines inside.capped top member symbol
      visited⟩

/-! ### A value not typed yet before an error region -/

namespace Recovered

def value : Draft :=
  (Draft.scalar "1" .integer (.closed ⟨2, 4⟩ ⟨2, 5⟩)).under "b" 2 1

def region : Draft := .node (.ofKind .error (.closed ⟨2, 1⟩ ⟨2, 7⟩)) [value]

def placeholder : Draft := (Draft.missing (.openAt ⟨1, 3⟩)).under "a" 1 1

def mapping : Draft := .node (.ofKind .mapping (.closed ⟨1, 1⟩ ⟨2, 7⟩)) [placeholder, region]

def tree : Tree := .ofDraft (.node (.ofKind .document (.closed ⟨1, 1⟩ ⟨3, 1⟩)) [mapping]) true

/-- The symbol of the placeholder runs to the error region, and the entry in the region stands
beside it. -/
theorem nests_of_nested_recovered :
    (ofDraft 4 {} tree.draft).flatMap (fun top => top.preorder.map fun symbol =>
        (symbol.entry.name, symbol.entry.span)) =
        [("document", .closed ⟨1, 1⟩ ⟨4, 1⟩), ("content", .closed ⟨1, 1⟩ ⟨2, 7⟩),
          ("a", .closed ⟨1, 1⟩ ⟨2, 1⟩), ("b", .closed ⟨2, 1⟩ ⟨2, 5⟩)] ∧
      ∀ top ∈ ofDraft 4 {} tree.draft, ∀ symbol ∈ top.walk, symbol.Nests :=
  ⟨by decide +kernel, nests_of_nested 4 {} tree (Tree.nested_of_throughout (by decide +kernel)) rfl
    (by decide)⟩

end Recovered

end Outline

end Blueprint
