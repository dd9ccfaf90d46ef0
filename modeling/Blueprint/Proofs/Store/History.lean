import Blueprint.Document
import Mathlib.Data.List.Induction

/-!
# Histories of the document store

An editor opens, changes and closes documents one step after the other. A step that the store
refuses leaves it as it was, and the next one is taken from there; `Store.run` is the store that a
history leads to from nothing.

What the store holds for one location is then told by the history alone, with no store in sight.
The location is open when it was opened and not closed since (`OpenAfter`). Its text is the last
one written to it (`writtenTo`). Its clean snapshot is the last clean parse among the texts of its
session (`cleanParses`), which begins at the latest opening (`IsSession`): an opening forgets the
parses before it, a broken change keeps the clean one, a clean change replaces it.

Only the steps that name a location matter to it (`find?_run_filter`), so that steps on different
locations can trade places (`documents_run_swap`).
-/

set_option autoImplicit false

namespace Blueprint

/-- One step of an editor. -/
inductive Step where
  /-- Open a document, or open it anew. -/
  | opening (location content : String) (version : Int)
  /-- Give an open document a new text. -/
  | change (location content : String) (version : Int)
  | close (location : String)
deriving DecidableEq, Repr

namespace Step

/-- The location that a step names. -/
def location : Step → String
  | opening location _ _ => location
  | change location _ _ => location
  | close location => location

/-- The document as a step writes it. -/
def document? : Step → Option Document
  | opening location content version => some { location, content, version := some version }
  | change location content version => some { location, content, version := some version }
  | close _ => none

/-- What a step makes of the document at its own location. -/
def effect (parser : Parser) : Step → Option OpenDocument → Option OpenDocument
  | opening location content version, _ =>
    some (.refresh parser { location, content, version := some version } none)
  | change _ _ _, none => none
  | change _ content version, some opened =>
    some (.refresh parser { opened.document with content, version := some version }
      opened.lastGood)
  | close _, _ => none

end Step

namespace Store

/-- Take a step, unless it is refused. -/
def perform (parser : Parser) (store : Store) : Step → Except StoreError Store
  | .opening location content version => .ok (store.openDocument parser location content version)
  | .change location content version => store.changeDocument parser location content version
  | .close location => .ok (store.closeDocument location)

/-- The store after a step; a refused step leaves it as it was. -/
def after (parser : Parser) (store : Store) (step : Step) : Store :=
  match store.perform parser step with
  | .ok next => next
  | .error _ => store

/-- The store after a history. -/
def run (parser : Parser) (steps : List Step) : Store := steps.foldl (after parser) empty

end Store

/-! ## What a history says of a location -/

/-- A location is open after a history when some opening of it has no later closing. -/
def OpenAfter (location : String) (steps : List Step) : Prop :=
  ∃ before content version later,
    steps = before ++ .opening location content version :: later ∧ .close location ∉ later

/-- The session of a location: the steps from its latest opening on. -/
def IsSession (location : String) (steps session : List Step) : Prop :=
  ∃ before content version later,
    steps = before ++ session ∧ session = .opening location content version :: later ∧
      ∀ content version, .opening location content version ∉ later

/-- The documents that the steps on a location write, in order. -/
def writtenTo (location : String) (steps : List Step) : List Document :=
  (steps.filter fun step => step.location == location).filterMap Step.document?

/-- The parses without errors of the documents that the steps on a location write, in order. -/
def cleanParses (parser : Parser) (location : String) (steps : List Step) : List Snapshot :=
  ((writtenTo location steps).map (Snapshot.parse parser)).filter fun snapshot =>
    !snapshot.hasErrors

/-! ## One step at one location -/

namespace Store

@[simp] theorem find?_empty (location : String) : empty.find? location = none := by
  simp [find?, empty]

theorem contains_eq_isSome_find? (store : Store) (location : String) :
    store.contains location = (store.find? location).isSome :=
  Std.TreeMap.contains_eq_isSome_getElem?

/-- A change is refused when its document is not open. -/
theorem perform_change_of_find?_eq_none (parser : Parser) {store : Store} {location : String}
    (absent : store.find? location = none) (content : String) (version : Int) :
    store.perform parser (.change location content version) =
      .error (.unknownDocument location) := by
  simp only [perform, changeDocument, absent]

theorem find?_insert (store : Store) (target location : String) (opened : OpenDocument) :
    (Store.mk (store.documents.insert target opened)).find? location =
      if target = location then some opened else store.find? location := by
  by_cases same : target = location
  · subst same
    simp only [find?, Std.TreeMap.getElem?_insert_self, if_true]
  · simp only [find?, Std.TreeMap.getElem?_insert, Std.LawfulEqCmp.compare_eq_iff_eq, if_neg same]

theorem find?_closeDocument (store : Store) (target location : String) :
    (store.closeDocument target).find? location =
      if target = location then none else store.find? location := by
  by_cases same : target = location
  · subst same
    simp only [find?, closeDocument, Std.TreeMap.getElem?_erase_self, if_true]
  · simp only [find?, closeDocument, Std.TreeMap.getElem?_erase,
      Std.LawfulEqCmp.compare_eq_iff_eq, if_neg same]

/-- A step changes what is held for its own location as `Step.effect` says, and nothing else. -/
theorem find?_after (parser : Parser) (store : Store) (step : Step) (location : String) :
    (store.after parser step).find? location =
      if step.location = location then step.effect parser (store.find? location)
      else store.find? location := by
  cases step with
  | opening target content version => exact find?_insert store target location _
  | close target => exact find?_closeDocument store target location
  | change target content version =>
      -- a refused change is where the store stays as it was
      cases held : store.find? target with
      | none =>
          simp only [after, perform, changeDocument, held]
          by_cases same : target = location
          · subst same
            simp only [Step.location, if_true, held, Step.effect]
          · exact (if_neg same).symm
      | some opened =>
          simp only [after, perform, changeDocument, held, find?_insert]
          by_cases same : target = location
          · subst same
            simp only [Step.location, if_true, held, Step.effect]
          · exact (if_neg same).trans (if_neg same).symm

/-- What a step leaves at a location depends only on what was there. -/
theorem find?_after_congr (parser : Parser) {left right : Store} {location : String}
    (same : left.find? location = right.find? location) (step : Step) :
    (left.after parser step).find? location = (right.after parser step).find? location := by
  rw [find?_after, find?_after, same]

theorem find?_foldl_after_congr (parser : Parser) {left right : Store} {location : String}
    (same : left.find? location = right.find? location) (steps : List Step) :
    (steps.foldl (after parser) left).find? location =
      (steps.foldl (after parser) right).find? location := by
  induction steps generalizing left right with
  | nil => exact same
  | cons step rest ih => exact ih (find?_after_congr parser same step)

/-! ## Whole histories -/

theorem run_concat (parser : Parser) (steps : List Step) (step : Step) :
    run parser (steps ++ [step]) = (run parser steps).after parser step := by
  simp only [run, List.foldl_append, List.foldl_cons, List.foldl_nil]

theorem find?_foldl_after_filter (parser : Parser) (store : Store) (steps : List Step)
    (location : String) :
    (steps.foldl (after parser) store).find? location =
      ((steps.filter fun step => step.location == location).foldl (after parser)
        store).find? location := by
  induction steps generalizing store with
  | nil => rfl
  | cons step rest ih =>
      by_cases same : step.location = location
      · simp only [List.foldl_cons, List.filter_cons, same, beq_self_eq_true, if_true]
        exact ih _
      · have apart : (step.location == location) = false := beq_false_of_ne same
        have kept : (store.after parser step).find? location = store.find? location := by
          rw [find?_after, if_neg same]
        simp only [List.foldl_cons, List.filter_cons, apart, Bool.false_eq_true, if_false]
        exact (find?_foldl_after_congr parser kept rest).trans (ih store)

/-- **What is held for a location depends only on the steps that name it.** -/
theorem find?_run_filter (parser : Parser) (steps : List Step) (location : String) :
    (run parser steps).find? location =
      (run parser (steps.filter fun step => step.location == location)).find? location :=
  find?_foldl_after_filter parser empty steps location

/-- Of two steps on different locations, a location sees at most one. -/
theorem filter_location_swap {first second : Step} (apart : first.location ≠ second.location)
    (before later : List Step) (location : String) :
    (before ++ first :: second :: later).filter (fun step => step.location == location) =
      (before ++ second :: first :: later).filter (fun step => step.location == location) := by
  by_cases same : first.location = location
  · have other : (second.location == location) = false :=
      beq_false_of_ne fun equal => apart (same.trans equal.symm)
    simp only [List.filter_append, List.filter_cons, other, Bool.false_eq_true, if_false]
  · have other : (first.location == location) = false := beq_false_of_ne same
    simp only [List.filter_append, List.filter_cons, other, Bool.false_eq_true, if_false]

/-- **Steps on different locations can trade places**: the same documents are open afterwards, each
with the same snapshots. -/
theorem documents_run_swap (parser : Parser) {first second : Step}
    (apart : first.location ≠ second.location) (before later : List Step) :
    (run parser (before ++ first :: second :: later)).documents.toList =
      (run parser (before ++ second :: first :: later)).documents.toList := by
  refine (Std.TreeMap.Equiv.of_forall_constGet?_eq fun location => ?_).toList_eq
  have left := find?_run_filter parser (before ++ first :: second :: later) location
  rw [filter_location_swap apart, ← find?_run_filter] at left
  exact left

end Store

/-! ## Openings and sessions along a history -/

theorem not_openAfter_nil (location : String) : ¬ OpenAfter location [] := by
  rintro ⟨before, content, version, later, split, _⟩
  simp at split

/-- A history with one more step leaves a location open when the step opens it, or when it was open
and the step does not close it. -/
theorem openAfter_concat {location : String} {steps : List Step} {step : Step} :
    OpenAfter location (steps ++ [step]) ↔
      (∃ content version, step = .opening location content version) ∨
        (OpenAfter location steps ∧ step ≠ .close location) := by
  constructor
  · rintro ⟨before, content, version, later, split, unclosed⟩
    rcases List.eq_nil_or_concat later with rfl | ⟨inner, last, rfl⟩
    · obtain ⟨_, same⟩ := List.append_inj' split rfl
      exact .inl ⟨content, version, List.cons.inj same |>.1⟩
    · rw [List.concat_eq_append, ← List.cons_append, ← List.append_assoc] at split
      obtain ⟨front, same⟩ := List.append_inj' split rfl
      obtain rfl : step = last := List.cons.inj same |>.1
      rw [List.concat_eq_append, List.mem_append, List.mem_singleton, not_or] at unclosed
      exact .inr ⟨⟨before, content, version, inner, front, unclosed.1⟩, fun equal =>
        unclosed.2 equal.symm⟩
  · rintro (⟨content, version, rfl⟩ | ⟨⟨before, content, version, later, rfl, unclosed⟩, stays⟩)
    · exact ⟨steps, content, version, [], rfl, List.not_mem_nil⟩
    · refine ⟨before, content, version, later ++ [step], by simp, ?_⟩
      rw [List.mem_append, List.mem_singleton, not_or]
      exact ⟨unclosed, fun equal => stays equal.symm⟩

theorem isSession_opening (location content : String) (version : Int) (steps : List Step) :
    IsSession location (steps ++ [.opening location content version])
      [.opening location content version] :=
  ⟨steps, content, version, [], rfl, rfl, fun _ _ => List.not_mem_nil⟩

/-- A step that does not open the location goes on with its session. -/
theorem IsSession.concat {location : String} {steps session : List Step} {step : Step}
    (latest : IsSession location steps session)
    (continues : ∀ content version, step ≠ .opening location content version) :
    IsSession location (steps ++ [step]) (session ++ [step]) := by
  obtain ⟨before, content, version, later, rfl, rfl, none_later⟩ := latest
  refine ⟨before, content, version, later ++ [step], by simp, by simp, ?_⟩
  intro content version member
  rcases List.mem_append.mp member with earlier | here
  · exact none_later content version earlier
  · exact continues content version (List.mem_singleton.mp here).symm

/-- A location has at most one session in a history. -/
theorem IsSession.unique {location : String} {steps left right : List Step}
    (first : IsSession location steps left) (second : IsSession location steps right) :
    left = right := by
  obtain ⟨before, content, version, later, rfl, rfl, none_later⟩ := first
  obtain ⟨before', content', version', later', split, rfl, none_later'⟩ := second
  rcases List.append_eq_append_iff.mp split with ⟨gap, rfl, tail⟩ | ⟨gap, rfl, tail⟩
  · cases gap with
    | nil => simpa using tail
    | cons step rest =>
        obtain ⟨_, rfl⟩ := List.cons.inj tail
        exact absurd (by simp) (none_later content' version')
  · cases gap with
    | nil => simpa using tail.symm
    | cons step rest =>
        obtain ⟨_, rfl⟩ := List.cons.inj tail
        exact absurd (by simp) (none_later' content version)

/-! ## Documents and parses along a history -/

theorem writtenTo_append (location : String) (earlier later : List Step) :
    writtenTo location (earlier ++ later) =
      writtenTo location earlier ++ writtenTo location later := by
  simp only [writtenTo, List.filter_append, List.filterMap_append]

theorem cleanParses_append (parser : Parser) (location : String) (earlier later : List Step) :
    cleanParses parser location (earlier ++ later) =
      cleanParses parser location earlier ++ cleanParses parser location later := by
  simp only [cleanParses, writtenTo_append, List.map_append, List.filter_append]

/-- What a single step on a location writes to it. -/
theorem writtenTo_singleton (step : Step) :
    writtenTo step.location [step] = step.document?.toList := by
  cases written : step.document? <;> simp [writtenTo, written]

/-- A step elsewhere writes nothing to a location. -/
theorem writtenTo_singleton_of_ne {step : Step} {location : String}
    (apart : step.location ≠ location) : writtenTo location [step] = [] := by
  simp [writtenTo, apart]

theorem location_of_mem_writtenTo {location : String} {steps : List Step} {document : Document}
    (member : document ∈ writtenTo location steps) : document.location = location := by
  obtain ⟨step, kept, written⟩ := List.mem_filterMap.mp member
  have named : step.location = location := by simpa using (List.mem_filter.mp kept).2
  cases step with
  | opening target content version =>
      obtain rfl := Option.some.inj written
      exact named
  | change target content version =>
      obtain rfl := Option.some.inj written
      exact named
  | close target => cases written

/-- The last clean parse after one more text: that of the text if it is clean, and the one before
otherwise. -/
theorem getLast?_cleanParses_concat (parser : Parser) (step : Step) {document : Document}
    (written : step.document? = some document) (steps : List Step) :
    (cleanParses parser step.location (steps ++ [step])).getLast? =
      (OpenDocument.refresh parser document
        (cleanParses parser step.location steps).getLast?).lastGood := by
  have single : cleanParses parser step.location [step] =
      if (Snapshot.parse parser document).hasErrors then [] else [.parse parser document] := by
    rw [cleanParses, writtenTo_singleton, written]
    cases broken : (Snapshot.parse parser document).hasErrors <;> simp [broken]
  rw [cleanParses_append, single]
  cases broken : (Snapshot.parse parser document).hasErrors <;>
    simp [OpenDocument.refresh, broken]

/-- What is held for an open location is what the history says of it. -/
structure Describes (parser : Parser) (location : String) (steps : List Step)
    (opened : OpenDocument) : Prop where
  document : (writtenTo location steps).getLast? = some opened.document
  current : opened.current = .parse parser opened.document
  lastGood : ∃ session, IsSession location steps session ∧
    opened.lastGood = (cleanParses parser location session).getLast?

namespace Describes

variable {parser : Parser} {location : String} {steps : List Step} {opened : OpenDocument}

theorem opening (parser : Parser) (location content : String) (version : Int)
    (steps : List Step) :
    Describes parser location (steps ++ [.opening location content version])
      (.refresh parser { location, content, version := some version } none) where
  document := by
    rw [writtenTo_append]
    simp [writtenTo, Step.location, Step.document?, OpenDocument.refresh]
  current := rfl
  lastGood := by
    refine ⟨_, isSession_opening location content version steps, ?_⟩
    exact (getLast?_cleanParses_concat parser (.opening location content version) rfl []).symm

theorem change (held : Describes parser location steps opened) (content : String)
    (version : Int) :
    Describes parser location (steps ++ [.change location content version])
      (.refresh parser { opened.document with content, version := some version }
        opened.lastGood) := by
  obtain rfl : opened.document.location = location :=
    location_of_mem_writtenTo (List.mem_of_getLast? held.document)
  obtain ⟨session, latest, good⟩ := held.lastGood
  refine ⟨?_, rfl, session ++ [.change _ content version],
    latest.concat (fun _ _ => Step.noConfusion), ?_⟩
  · rw [writtenTo_append]
    simp [writtenTo, Step.location, Step.document?, OpenDocument.refresh]
  · rw [good]
    exact (getLast?_cleanParses_concat parser (.change _ content version) rfl session).symm

theorem elsewhere (held : Describes parser location steps opened) {step : Step}
    (apart : step.location ≠ location) :
    Describes parser location (steps ++ [step]) opened := by
  obtain ⟨session, latest, good⟩ := held.lastGood
  have nothing : cleanParses parser location [step] = [] := by
    rw [cleanParses, writtenTo_singleton_of_ne apart]
    rfl
  refine ⟨?_, held.current, session ++ [step], latest.concat ?_, ?_⟩
  · rw [writtenTo_append, writtenTo_singleton_of_ne apart, List.append_nil, held.document]
  · rintro content version rfl
    exact apart rfl
  · rw [cleanParses_append, nothing, List.append_nil, good]

end Describes

/-! ## The store tells its history -/

namespace Store

theorem find?_run_concat (parser : Parser) (steps : List Step) (step : Step)
    (location : String) :
    (run parser (steps ++ [step])).find? location =
      if step.location = location then step.effect parser ((run parser steps).find? location)
      else (run parser steps).find? location := by
  rw [run_concat, find?_after]

/-- A document is held for a location exactly when the history left it open. -/
theorem isSome_find?_run_iff (parser : Parser) (steps : List Step) (location : String) :
    ((run parser steps).find? location).isSome = true ↔ OpenAfter location steps := by
  induction steps using List.reverseRecOn with
  | nil => simpa [run] using not_openAfter_nil location
  | append_singleton steps step ih =>
      rw [find?_run_concat, openAfter_concat, ← ih]
      by_cases named : step.location = location
      · subst named
        rw [if_pos rfl]
        cases step with
        | opening target content version => simp [Step.effect, Step.location]
        | close target => simp [Step.effect, Step.location]
        | change target content version =>
            simp only [Step.location]
            cases (run parser steps).find? target <;> simp [Step.effect]
      · rw [if_neg named]
        constructor
        · intro held
          exact .inr ⟨held, fun closes => named (closes ▸ rfl)⟩
        · rintro (⟨content, version, rfl⟩ | ⟨held, _⟩)
          · exact absurd rfl named
          · exact held

/-- What is held for an open location is what the history says of it. -/
theorem describes_of_find?_run (parser : Parser) {steps : List Step} {location : String}
    {opened : OpenDocument} (held : (run parser steps).find? location = some opened) :
    Describes parser location steps opened := by
  induction steps using List.reverseRecOn generalizing opened with
  | nil => simp [run] at held
  | append_singleton steps step ih =>
      rw [find?_run_concat] at held
      by_cases named : step.location = location
      · subst named
        rw [if_pos rfl] at held
        cases step with
        | opening target content version =>
            obtain rfl := Option.some.inj held
            exact Describes.opening parser target content version steps
        | close target => cases held
        | change target content version =>
            cases earlier : (run parser steps).find? target with
            | none => simp [Step.location, earlier, Step.effect] at held
            | some before =>
                simp only [Step.location, earlier, Step.effect, Option.some.injEq] at held
                subst held
                exact (ih earlier).change content version
      · rw [if_neg named] at held
        exact (ih held).elsewhere named

/-- **The store after a history.** A location is open exactly when some opening of it has no later
closing. Then it holds the last document written to it, the parse of that document, and the last
clean parse since its latest opening. A change of a location that is not open is refused and leaves
the store as it was. What is held for a location depends only on the steps that name it, so steps
on different locations trade places freely. -/
theorem run_tells_history (parser : Parser) (steps : List Step) (location : String) :
    ((run parser steps).contains location = true ↔ OpenAfter location steps) ∧
    (OpenAfter location steps →
      ∃ document session,
        (writtenTo location steps).getLast? = some document ∧
        (run parser steps).document? location = some document ∧
        (run parser steps).snapshot? location = some (.parse parser document) ∧
        IsSession location steps session ∧
        (∀ other, IsSession location steps other → other = session) ∧
        ((run parser steps).find? location).bind OpenDocument.lastGood =
          (cleanParses parser location session).getLast?) ∧
    (¬ OpenAfter location steps → ∀ content version,
      (run parser steps).perform parser (.change location content version) =
          .error (.unknownDocument location) ∧
        run parser (steps ++ [.change location content version]) = run parser steps) ∧
    (run parser steps).find? location =
      (run parser (steps.filter fun step => step.location == location)).find? location ∧
    (∀ before first second later, steps = before ++ first :: second :: later →
      first.location ≠ second.location →
      (run parser steps).documents.toList =
        (run parser (before ++ second :: first :: later)).documents.toList) := by
  refine ⟨?_, ?_, ?_, find?_run_filter parser steps location, ?_⟩
  · rw [contains_eq_isSome_find?, isSome_find?_run_iff]
  · intro isOpen
    obtain ⟨opened, held⟩ :=
      Option.isSome_iff_exists.mp ((isSome_find?_run_iff parser steps location).mpr isOpen)
    have described := describes_of_find?_run parser held
    obtain ⟨session, latest, good⟩ := described.lastGood
    refine ⟨opened.document, session, described.document, ?_, ?_, latest,
      fun other another => another.unique latest, ?_⟩
    · rw [document?, held, Option.map_some]
    · rw [snapshot?, held, Option.map_some, described.current]
    · rw [held, Option.bind_some, good]
  · intro closed content version
    have absent : (run parser steps).find? location = none := by
      rw [← Option.not_isSome_iff_eq_none, isSome_find?_run_iff]
      exact closed
    have refused := perform_change_of_find?_eq_none parser absent content version
    refine ⟨refused, ?_⟩
    rw [run_concat, after, refused]
  · rintro before first second later rfl apart
    exact documents_run_swap parser apart before later

end Store

end Blueprint
