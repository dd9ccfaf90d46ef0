import Mathlib.Data.List.Sort
import Blueprint.Proofs.Lookup.Scan
import Blueprint.Proofs.Text.Positions

/-!
# What leeway adds

The four cases of containment come to two comparisons (`Span.containsWithin_iff`): the start of the
span, moved left by the leeway, is not past the position, and the span does not end before it. Only
the first one mentions the leeway. So leeway never takes a node away, and a node that it adds starts
on the line of the position and to the right of it (`Span.startsAhead_of_gained`).

What is found with less leeway is therefore what is found with more, less the nodes that do not
contain the position (`Lookup.nodesAt_build_eq_filter`), and it is found in the same order, as there
is one way only to put nodes in order by depth.
-/

set_option autoImplicit false

namespace Blueprint

/-! ## Containment as two comparisons -/

/-- The position some columns to the left, at most to the margin. -/
def Position.left (position : Position) (columns : Nat) : Position :=
  ⟨position.line, position.column - columns⟩

namespace Span

/-- A span ends before a position. An open span ends with its line. -/
def EndsBefore (span : Span) (position : Position) : Prop :=
  match span.stop with
  | some stop => stop < position
  | none => span.start.line < position.line

/-- A span starts on the line of a position, to the right of it, more than `less` columns away but
at most `more`. -/
def StartsAhead (span : Span) (position : Position) (less more : Nat) : Prop :=
  span.start.line = position.line ∧ position.column + less < span.start.column ∧
    span.start.column ≤ position.column + more

variable {span : Span} {position : Position} {leeway less more : Nat}

theorem containsWithin_iff :
    span.containsWithin position leeway = true ↔
      span.start.left leeway ≤ position ∧ ¬span.EndsBefore position := by
  obtain ⟨start, stop⟩ := span
  cases stop with
  | none =>
      simp only [containsWithin, EndsBefore, Position.le_iff, Position.left, Bool.and_eq_true,
        beq_iff_eq, decide_eq_true_eq]
      omega
  | some stop =>
      simp only [containsWithin, EndsBefore, Position.le_iff, Position.lt_iff, Position.left]
      split
      · next apart =>
          simp only [Bool.or_eq_true, decide_eq_true_eq] at apart
          simp only [Bool.false_eq_true, false_iff]
          omega
      · next between =>
          simp only [Bool.or_eq_true, decide_eq_true_eq] at between
          split
          · next single =>
              simp only [beq_iff_eq] at single
              simp only [Bool.and_eq_true, decide_eq_true_eq]
              omega
          · next several =>
              simp only [beq_iff_eq] at several
              split
              · next first =>
                  simp only [beq_iff_eq] at first
                  simp only [decide_eq_true_eq]
                  omega
              · next later =>
                  simp only [beq_iff_eq] at later
                  split
                  · next last =>
                      simp only [beq_iff_eq] at last
                      simp only [decide_eq_true_eq]
                      omega
                  · next inner =>
                      simp only [beq_iff_eq] at inner
                      simp only [true_iff]
                      omega

theorem containsWithin_mono (widened : less ≤ more)
    (inside : span.containsWithin position less = true) :
    span.containsWithin position more = true := by
  rw [containsWithin_iff] at inside ⊢
  obtain ⟨started, notEnded⟩ := inside
  refine ⟨?_, notEnded⟩
  simp only [Position.le_iff, Position.left] at started ⊢
  omega

/-- The spans that contain a position only with the greater of two leeways are those that start
ahead of it between the two, and do not end before it. -/
theorem gained_iff :
    span.containsWithin position more = true ∧ ¬span.containsWithin position less = true ↔
      span.StartsAhead position less more ∧ ¬span.EndsBefore position := by
  have starts : span.start.left more ≤ position ∧ ¬span.start.left less ≤ position ↔
      span.StartsAhead position less more := by
    simp only [Position.le_iff, Position.left, StartsAhead]
    omega
  rw [containsWithin_iff, containsWithin_iff, ← starts]
  constructor
  · rintro ⟨⟨reached, notEnded⟩, missed⟩
    exact ⟨⟨reached, fun already => missed ⟨already, notEnded⟩⟩, notEnded⟩
  · rintro ⟨⟨reached, missed⟩, notEnded⟩
    exact ⟨⟨reached, notEnded⟩, fun already => missed already.1⟩

theorem containsWithin_of_endsBefore (ended : span.EndsBefore position) (leeway : Nat) :
    span.containsWithin position leeway = false := by
  rw [← Bool.not_eq_true, containsWithin_iff]
  exact fun inside => inside.2 ended

end Span

/-! ## The nodes at a position -/

namespace Lookup

variable {less more : Nat}

/-- With less leeway are found those of the nodes found with more that contain the position. -/
theorem nodesAt_build_eq_filter (tree : Tree) (position : Position) (widened : less ≤ more) :
    (build tree).nodesAt position less =
      ((build tree).nodesAt position more).filter fun node =>
        node.containsWithin position less := by
  -- Both sides are in order by depth, so it is enough that they have the same nodes.
  refine (pairwise_nodesAt_build tree position less).eq_of_mem_iff
    ((pairwise_nodesAt_build tree position more).filter _) fun node => ?_
  rw [List.mem_filter, mem_nodesAt_build_iff, mem_nodesAt_build_iff]
  constructor
  · rintro ⟨listed, inside⟩
    exact ⟨⟨listed, Span.containsWithin_mono widened inside⟩, inside⟩
  · rintro ⟨⟨listed, -⟩, inside⟩
    exact ⟨listed, inside⟩

/-- What is deepest with less leeway is there with more as well, so that the deepest is as deep. -/
theorem depth_deepestAt_le {tree : Tree} {position : Position} {node : Node} (widened : less ≤ more)
    (deepest : (build tree).deepestAt position less = some node) :
    ∃ deeper, (build tree).deepestAt position more = some deeper ∧ node.depth ≤ deeper.depth := by
  obtain ⟨listed, inside, -⟩ := deepestAt_build_eq_some_iff.mp deepest
  have still : node.containsWithin position more = true := Span.containsWithin_mono widened inside
  cases found : (build tree).deepestAt position more with
  | none =>
      rw [deepestAt_build_eq_none_iff.mp found node listed] at still
      cases still
  | some deeper =>
      refine ⟨deeper, rfl, ?_⟩
      obtain ⟨-, -, last⟩ := deepestAt_build_eq_some_iff.mp found
      rcases last node listed still with rfl | shallower | ⟨same, -⟩
      · exact Nat.le_refl _
      · exact Nat.le_of_lt shallower
      · exact Nat.le_of_eq same

/-- **Leeway only adds nodes that start just right of the cursor.** What is found with less leeway
is found with more, in the same order. What only the greater leeway finds are the nodes that start on
the line of the position and to the right of it, farther than the lesser leeway reaches but not than
the greater, and do not end before it. The deepest node is never less deep with more leeway, and with
no leeway does a node contain a position that it ends before. -/
theorem leeway_adds_only_ahead (tree : Tree) (position : Position) {less more : Nat}
    (widened : less ≤ more) :
    ((build tree).nodesAt position less).Sublist ((build tree).nodesAt position more) ∧
      (∀ node ∈ tree.nodes,
        node ∈ (build tree).nodesAt position more ∧ node ∉ (build tree).nodesAt position less ↔
          node.span.StartsAhead position less more ∧ ¬node.span.EndsBefore position) ∧
      (∀ node, (build tree).deepestAt position less = some node →
        ∃ deeper, (build tree).deepestAt position more = some deeper ∧
          node.depth ≤ deeper.depth) ∧
      ∀ node ∈ tree.nodes, node.span.EndsBefore position →
        ∀ leeway, node.containsWithin position leeway = false := by
  refine ⟨?_, ?_, fun node => depth_deepestAt_le widened, ?_⟩
  · rw [nodesAt_build_eq_filter tree position widened]
    exact List.filter_sublist
  · intro node listed
    rw [mem_nodesAt_build_iff, mem_nodesAt_build_iff, ← Span.gained_iff]
    simp only [listed, true_and]
    rfl
  · intro node _ ended leeway
    exact Span.containsWithin_of_endsBefore ended leeway

/-! ### Right before a value -/

namespace BeforeValue

/-- The entry `a: x` with the value one space behind the colon. -/
def tree : Tree :=
  .ofDraft (.node (.ofKind .document (.closed ⟨1, 1⟩ ⟨1, 5⟩))
    [.node (.ofKind .mapping (.closed ⟨1, 1⟩ ⟨1, 5⟩))
      [(Draft.word "x" 1 4).under "a" 1 1]]) false

/-- Right behind the colon a leeway of one column finds the value as well. -/
theorem leeway_adds_only_ahead_value :
    0 ≤ 1 ∧ ((build tree).nodesAt ⟨1, 3⟩ 0).map Node.id = [0, 1] ∧
      ((build tree).nodesAt ⟨1, 3⟩ 1).map Node.id = [0, 1, 2] ∧
      ((build tree).nodesAt ⟨1, 3⟩ 0).Sublist ((build tree).nodesAt ⟨1, 3⟩ 1) := by
  have widened : 0 ≤ 1 := Nat.zero_le 1
  exact ⟨widened, by decide +kernel, by decide +kernel,
    (leeway_adds_only_ahead tree ⟨1, 3⟩ widened).1⟩

end BeforeValue

end Lookup

end Blueprint
