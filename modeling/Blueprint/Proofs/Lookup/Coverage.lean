import Blueprint.Document
import Blueprint.Proofs.Lookup.Leeway
import Blueprint.Proofs.ParseTree.Walk

/-!
# Every place of a document is covered

The root of a document spans the whole source, from the first position to the one after the last
character, whatever the parser made of the text. As no offset has a position past the end
(`Text.endOf_le_endOf_append`), the root is found at the position of every offset, and it is found
first, since no other node is as shallow (`Lookup.exists_nodesAt_build_eq_cons`).

The outline takes its last line from the number of lines and its last column from the root. The two
speak of one position, so the symbol of the file has the span of the root
(`Outline.fileSpan_closed`).
-/

set_option autoImplicit false

namespace Blueprint

namespace Lookup

variable {tree : Tree} {position : Position} {leeway : Nat}

/-- Where the root is found it is found first: it is less deep than the others. -/
theorem exists_nodesAt_build_eq_cons
    (inside : tree.root.containsWithin position leeway = true) :
    ∃ below, (build tree).nodesAt position leeway = tree.root :: below := by
  have member := mem_nodesAt_build_iff.mpr ⟨tree.root_mem_nodes, inside⟩
  have ordered := pairwise_nodesAt_build tree position leeway
  cases found : (build tree).nodesAt position leeway with
  | nil =>
      rw [found] at member
      cases member
  | cons first below =>
      rw [found] at member ordered
      rcases List.mem_cons.mp member with same | later
      · exact ⟨below, by rw [same]⟩
      · have before := List.rel_of_pairwise_cons ordered later
        rcases before with shallower | ⟨-, earlier⟩
        · exact absurd shallower (Nat.not_lt_zero _)
        · exact absurd earlier (Nat.not_lt_zero _)

end Lookup

namespace Span

/-- A span contains the positions from its start to its end, with any leeway. -/
theorem containsWithin_closed {start stop position : Position} (started : start ≤ position)
    (notEnded : position ≤ stop) (leeway : Nat) :
    (Span.closed start stop).containsWithin position leeway = true := by
  rw [containsWithin_iff]
  simp only [closed, EndsBefore, Position.le_iff, Position.lt_iff, Position.left] at *
  omega

end Span

namespace Outline

/-- The symbol of a file has the span of the root when that ends on the last line. -/
theorem fileSpan_closed {start stop : Position} (runs : start ≤ stop) :
    fileSpan stop.line (.closed start stop) = .closed start stop := by
  have last : max stop.line start.line = stop.line := by
    rw [Position.le_iff] at runs
    omega
  simp only [fileSpan, Span.closed, last, beq_self_eq_true, if_true]

end Outline

namespace Snapshot

section

variable (parser : Parser) (document : Document)

theorem span_root_parse :
    (parse parser document).tree.root.span =
      .closed .first (Text.endOf document.content.toList) := rfl

theorem totalLines_parse :
    (parse parser document).totalLines = (Text.endOf document.content.toList).line := rfl

/-- **Every place of a document is covered.** In a text of fewer than 2^32 bytes, whatever the parser
makes of it, every offset between two characters has a position, and with any leeway the root is the
first of the nodes found there, so that there is a deepest one. The root spans the text from the
first position to the end, which is on the last line; the outline is one symbol for the file, which
has the span of the root and selects it. -/
theorem covers_every_offset (short : Text.byteLength document.content.toList < 4294967296) :
    let text := document.content.toList
    let snapshot := parse parser document
    let root := snapshot.tree.root
    (∀ offset, offset ≤ Text.byteLength text → Text.IsBoundary text offset →
      ∃ position, Text.positionAt text offset = some position ∧ ∀ leeway,
        (∃ below, snapshot.lookup.nodesAt position leeway = root :: below) ∧
          ∃ deepest, snapshot.lookup.deepestAt position leeway = some deepest) ∧
      ∃ stop, Text.positionAt text (Text.byteLength text) = some stop ∧
        stop.line = snapshot.totalLines ∧ root.span = .closed ⟨1, 1⟩ stop ∧
          ∀ config, ∃ file children, snapshot.outline config = [.node file children] ∧
            file.kind = .file ∧ file.span = root.span ∧ file.selection = root.span := by
  intro text snapshot root
  constructor
  · intro offset inside boundary
    have placed := (Text.isSome_positionAt_iff text offset).mpr ⟨inside, boundary⟩
    obtain ⟨position, placed⟩ := Option.isSome_iff_exists.mp placed
    refine ⟨position, placed, fun leeway => ?_⟩
    have covered : root.containsWithin position leeway = true := by
      obtain ⟨front, -, -, -, rfl⟩ := Text.positionAt_eq_some_iff.mp placed
      exact Span.containsWithin_closed (Text.first_le_endOf front)
        (Text.le_endOf_of_positionAt short placed) leeway
    obtain ⟨below, found⟩ : ∃ below, snapshot.lookup.nodesAt position leeway = root :: below :=
      Lookup.exists_nodesAt_build_eq_cons covered
    refine ⟨⟨below, found⟩, (root :: below).getLast (List.cons_ne_nil _ _), ?_⟩
    rw [Lookup.deepestAt, found, List.getLast?_eq_some_getLast]
  · refine ⟨_, Text.positionAt_byteLength text, (totalLines_parse parser document).symm,
      span_root_parse parser document, fun config => ⟨_, _, rfl, rfl, ?_⟩⟩
    have same : Outline.fileSpan snapshot.totalLines root.span = root.span :=
      Outline.fileSpan_closed (Text.first_le_endOf text)
    exact ⟨same, same⟩

end

/-! ### A text that is all one error -/

namespace Broken

/-- A parser that makes nothing of a text. -/
def parser : Parser := fun content _ =>
  { tree := .region 0 content.utf8ByteSize [], hasError := true }

def document : Document := { location := "a.yaml", content := "é: [\n", version := none }

/-- At the end of the text, which is past the error, the root is found. -/
theorem covers_every_offset_broken :
    Text.byteLength document.content.toList < 4294967296 ∧
      Text.positionAt document.content.toList 6 = some ⟨2, 1⟩ ∧
      (∃ below, (parse parser document).lookup.nodesAt ⟨2, 1⟩ 1 =
        (parse parser document).tree.root :: below) ∧
      (parse parser document).tree.root.span = .closed ⟨1, 1⟩ ⟨2, 1⟩ := by
  have short : Text.byteLength document.content.toList < 4294967296 := by decide
  have placed : Text.positionAt document.content.toList 6 = some ⟨2, 1⟩ := by decide
  obtain ⟨covered, stop, ended, -, span, -⟩ := covers_every_offset parser document short
  have boundary := (Text.isSome_positionAt_iff _ _).mp (Option.isSome_of_eq_some placed)
  obtain ⟨position, same, found⟩ := covered 6 boundary.1 boundary.2
  obtain rfl := Option.some.inj (placed.symm.trans same)
  obtain rfl : (⟨2, 1⟩ : Position) = stop := Option.some.inj (placed.symm.trans ended)
  exact ⟨short, placed, (found 1).1, span⟩

end Broken

end Snapshot

end Blueprint
