import Blueprint.Proofs.ParseTree.Walk
import Blueprint.Proofs.Store.History

/-!
# When a query is answered from an older snapshot

A query at a position is answered from the current snapshot as long as that is clean or places the
position on a node below the root. Otherwise it falls back on the last clean snapshot of the
session, if there is one, and the answer is marked as stale.

The choice is made with the snapshot's own text and without a semantic tree; the answer is then
built from the text in the store and whatever semantic tree the caller has. Both come to the same
node: the two texts are equal in every store that a history leads to, and the node at a position
does not depend on the semantic tree (`Context.node_build_eq`).

Main statement: `Store.query_stale_exactly`.
-/

set_option autoImplicit false

namespace Blueprint

/-- The node at a position is chosen without looking at the semantic tree. -/
theorem Context.node_build_eq (lookup : Lookup) (content : List Char) (position : Position)
    (format : Format) (semantic : Option SemanticTree) (config : Config) :
    (Context.build lookup content position format semantic config).node =
      (Context.build lookup content position format none config).node := by
  simp only [Context.build]
  by_cases outside : (position.line == 0 || Text.lineCount content < position.line) = true
  · rw [if_pos outside, if_pos outside]
  · rw [if_neg outside, if_neg outside]

namespace Snapshot

/-- The snapshot has a node below the root at a position of its own text. -/
def PlacesBelowRoot (snapshot : Snapshot) (position : Position) (config : Config) : Prop :=
  ∃ node, (snapshot.context position none config).node = some node ∧ node.isRoot = false

theorem resolves_iff (snapshot : Snapshot) (position : Position) (config : Config) :
    snapshot.resolves position config = true ↔ snapshot.PlacesBelowRoot position config := by
  simp only [resolves, PlacesBelowRoot, Option.any_eq_true, Bool.not_eq_true']

end Snapshot

/-- A query on the snapshot of the current text, with any semantic tree, finds a node below the
root wherever the snapshot has one. -/
theorem Query.exists_node_of_placesBelowRoot {query : Query} {position : Position}
    {config : Config} (same : query.content = query.snapshot.document.content)
    (placed : query.snapshot.PlacesBelowRoot position config) (semantic : Option SemanticTree) :
    ∃ node, (query.context position semantic config).node = some node ∧ node.isRoot = false := by
  obtain ⟨node, found, below⟩ := placed
  refine ⟨node, ?_, below⟩
  rw [← found]
  simp only [Query.context, Snapshot.context, Snapshot.contextIn, same]
  exact Context.node_build_eq _ _ _ _ _ _

namespace OpenDocument

variable {opened : OpenDocument} {position : Position} {config : Config}

/-- The current snapshot is good enough for a query. -/
def Answers (opened : OpenDocument) (position : Position) (config : Config) : Prop :=
  opened.current.hasErrors = false ∨ opened.current.PlacesBelowRoot position config

theorem query_of_answers (answers : opened.Answers position config) :
    opened.query position config =
      { snapshot := opened.current, content := opened.document.content, stale := false } := by
  have chosen : (!opened.current.hasErrors || opened.current.resolves position config) = true := by
    rcases answers with clean | placed
    · rw [clean]
      rfl
    · rw [(Snapshot.resolves_iff _ _ _).mpr placed, Bool.or_true]
  simp only [query, chosen, if_true]

/-- Short of a good current snapshot, the last clean one answers. -/
theorem query_of_not_answers (fails : ¬ opened.Answers position config) :
    opened.query position config =
      match opened.lastGood with
      | some good => { snapshot := good, content := opened.document.content, stale := true }
      | none =>
        { snapshot := opened.current, content := opened.document.content, stale := false } := by
  obtain ⟨broken, unplaced⟩ := not_or.mp fails
  have refused :
      (!opened.current.hasErrors || opened.current.resolves position config) = false := by
    rw [Bool.or_eq_false_iff]
    refine ⟨?_, ?_⟩
    · simpa using broken
    · exact Bool.eq_false_iff.mpr fun resolves =>
        unplaced ((Snapshot.resolves_iff _ _ _).mp resolves)
  cases held : opened.lastGood <;>
    simp only [query, refused, held, Bool.false_eq_true, if_false]

theorem content_query (opened : OpenDocument) (position : Position) (config : Config) :
    (opened.query position config).content = opened.document.content := by
  by_cases answers : opened.Answers position config
  · rw [query_of_answers answers]
  · rw [query_of_not_answers answers]
    cases opened.lastGood <;> rfl

/-- A query is stale exactly when the current snapshot does not do and there is a clean one. -/
theorem stale_query_iff :
    (opened.query position config).stale = true ↔
      ¬ opened.Answers position config ∧ opened.lastGood ≠ none := by
  by_cases answers : opened.Answers position config
  · simp [query_of_answers answers, answers]
  · rw [query_of_not_answers answers]
    cases opened.lastGood <;> simp [answers]

/-- A stale query is answered by the last clean snapshot. -/
theorem lastGood_of_stale_query (stale : (opened.query position config).stale = true) :
    opened.lastGood = some (opened.query position config).snapshot := by
  obtain ⟨fails, some_good⟩ := stale_query_iff.mp stale
  obtain ⟨good, held⟩ := Option.ne_none_iff_exists'.mp some_good
  rw [query_of_not_answers fails, held]

/-- A query that is not stale is answered by the current snapshot. -/
theorem snapshot_of_fresh_query (fresh : (opened.query position config).stale = false) :
    (opened.query position config).snapshot = opened.current := by
  by_cases answers : opened.Answers position config
  · rw [query_of_answers answers]
  · rw [query_of_not_answers answers] at fresh ⊢
    cases held : opened.lastGood with
    | none => rfl
    | some good => simp [held] at fresh

end OpenDocument

theorem hasErrors_of_mem_cleanParses {parser : Parser} {location : String} {steps : List Step}
    {snapshot : Snapshot} (member : snapshot ∈ cleanParses parser location steps) :
    snapshot.hasErrors = false := by
  simpa using (List.mem_filter.mp member).2

namespace Store

/-- **Staleness is exact.** In a store that a history leads to, every query on an open location is
answered, with the current text. It is stale exactly when the current snapshot has errors, has no
node below the root at the position, and some text of the session parsed cleanly. A stale query is
answered by the last clean snapshot, which is not the current one. Any other query is answered by
the current snapshot; if that has errors although there is a clean one, then with any semantic
tree the position is on a node below the root. -/
theorem query_stale_exactly (parser : Parser) (steps : List Step) (location : String)
    (isOpen : OpenAfter location steps) (position : Position) (config : Config) :
    ∃ document current session query,
      (run parser steps).document? location = some document ∧
      (run parser steps).snapshot? location = some current ∧
      IsSession location steps session ∧
      (run parser steps).query? location position config = some query ∧
      query.content = document.content ∧
      (query.stale = true ↔
        current.hasErrors = true ∧ ¬ current.PlacesBelowRoot position config ∧
          cleanParses parser location session ≠ []) ∧
      (query.stale = true →
        query.snapshot.hasErrors = false ∧
          (cleanParses parser location session).getLast? = some query.snapshot ∧
          query.snapshot ≠ current) ∧
      (query.stale = false →
        query.snapshot = current ∧
          (current.hasErrors = true → cleanParses parser location session ≠ [] →
            ∀ semantic, ∃ node,
              (query.context position semantic config).node = some node ∧
                node.isRoot = false)) := by
  obtain ⟨opened, held⟩ :=
    Option.isSome_iff_exists.mp ((isSome_find?_run_iff parser steps location).mpr isOpen)
  have described := describes_of_find?_run parser held
  obtain ⟨session, latest, good⟩ := described.lastGood
  have has_good : opened.lastGood ≠ none ↔ cleanParses parser location session ≠ [] := by
    rw [good, Ne, List.getLast?_eq_none_iff]
  have own_text : opened.current.document = opened.document := by
    rw [described.current]
    rfl
  refine ⟨opened.document, opened.current, session, opened.query position config, ?_, ?_, latest,
    ?_, opened.content_query position config, ?_, ?_, ?_⟩
  · rw [document?, held, Option.map_some]
  · rw [snapshot?, held, Option.map_some]
  · rw [query?, held, Option.map_some]
  · rw [OpenDocument.stale_query_iff, has_good, OpenDocument.Answers, not_or, and_assoc,
      Bool.not_eq_false]
  · intro stale
    have last := good.symm.trans (OpenDocument.lastGood_of_stale_query stale)
    have clean := hasErrors_of_mem_cleanParses (List.mem_of_getLast? last)
    refine ⟨clean, last, fun same => ?_⟩
    obtain ⟨fails, _⟩ := OpenDocument.stale_query_iff.mp stale
    exact fails (.inl (same ▸ clean))
  · intro fresh
    have chosen := OpenDocument.snapshot_of_fresh_query fresh
    refine ⟨chosen, fun broken some_clean semantic => ?_⟩
    have answers : opened.Answers position config := by
      by_contra fails
      have stale := OpenDocument.stale_query_iff.mpr ⟨fails, has_good.mpr some_clean⟩
      rw [fresh] at stale
      cases stale
    have placed : opened.current.PlacesBelowRoot position config :=
      answers.resolve_left fun clean => by
        rw [clean] at broken
        cases broken
    refine Query.exists_node_of_placesBelowRoot ?_ (chosen ▸ placed) semantic
    rw [opened.content_query, chosen, own_text]

/-! ### A document that breaks after a clean start -/

namespace Unclosed

/-- A parser that finds nothing but an unclosed bracket. -/
def parser : Parser := fun content _ =>
  { tree := .sound "stream" none 0 0 [], hasError := content == "a: [" }

def steps : List Step := [.opening "a.yaml" "a: []" 1, .change "a.yaml" "a: [" 2]

/-- The broken text is answered for by the clean one before it. -/
theorem query_stale_exactly_unclosed :
    OpenAfter "a.yaml" steps ∧
      ∃ query, (run parser steps).query? "a.yaml" ⟨1, 1⟩ ⟨1, true⟩ = some query ∧
        query.stale = true ∧ query.content = "a: [" ∧ query.snapshot.hasErrors = false := by
  have isOpen : OpenAfter "a.yaml" steps := ⟨[], "a: []", 1, _, rfl, by decide⟩
  obtain ⟨document, current, session, query, held, _, _, answered, content, _, stale, _⟩ :=
    query_stale_exactly parser steps "a.yaml" isOpen ⟨1, 1⟩ ⟨1, true⟩
  have marked : ((run parser steps).query? "a.yaml" ⟨1, 1⟩ ⟨1, true⟩).map (·.stale) =
      some true := by decide +kernel
  have text : ((run parser steps).document? "a.yaml").map (·.content) = some "a: [" := by
    decide +kernel
  rw [answered] at marked
  rw [held] at text
  have isStale : query.stale = true := Option.some.inj marked
  exact ⟨isOpen, query, answered, isStale, content.trans (Option.some.inj text),
    (stale isStale).1⟩

end Unclosed

end Store

end Blueprint
