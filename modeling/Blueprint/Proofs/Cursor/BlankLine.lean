import Blueprint.Cursor.Context
import Blueprint.Proofs.Lookup.Indentation
import Blueprint.Proofs.Lookup.Paths
import Blueprint.Proofs.Text.Lines

/-!
# Cursors on lines of white space

On a line of white space a YAML document has nothing that a cursor could mean, and its node is told
by indentation alone, whatever spans reach over the line (`Context.placedByIndentation_of_isBlank`).

The further to the right the cursor is, the more spaces stand before it
(`CursorLine.indentation_cut_le`), and with more spaces the node is the same or further down. So the
node of one column is an ancestor of the node of a later column, or the same, and its path goes on
to the path of the other (`Context.indenting_never_leads_up`).
-/

set_option autoImplicit false

namespace Blueprint

/-! ## The line -/

namespace Text

/-- A line of a text that is white space only. -/
structure IsBlankLine (content : List Char) (line : Nat) : Prop where
  /-- Lines are counted from one and within the limit of positions. -/
  counted : 1 ≤ line ∧ line ≤ Position.limit
  blank : ∃ text, (lines content)[line - 1]? = some text ∧ allBlank text = true

theorem IsBlankLine.le_lineCount {content : List Char} {line : Nat}
    (blank : IsBlankLine content line) : line ≤ lineCount content := by
  obtain ⟨⟨first, last⟩, text, found, -⟩ := blank
  obtain ⟨inside, -⟩ := List.getElem?_eq_some_iff.mp found
  rw [length_lines] at inside
  rw [lineCount, Position.clamp, Nat.le_min]
  omega

end Text

namespace CursorLine

theorem allBlank_dropReturn {line : List Char} (blank : Text.allBlank line = true) :
    Text.allBlank (dropReturn line) = true := by
  rw [dropReturn]
  split
  · rw [Text.allBlank, List.all_eq_true] at blank ⊢
    intro char member
    exact blank char ((List.dropLast_prefix line).subset member)
  · exact blank

/-- A later cut has at least as many spaces before it. -/
theorem indentation_cut_le (line : List Char) {near far : Nat} (further : near ≤ far) :
    (cut line near).indentation ≤ (cut line far).indentation := by
  obtain ⟨more, longer⟩ := List.take_prefix_take_left (l := line) further
  simp only [indentation, cut, ← longer, List.takeWhile_append]
  split
  · next spaces =>
      rw [spaces, List.length_append]
      omega
  · exact Nat.le_refl _

/-- The text around a cursor on a line of white space is that line, cut at the cursor. -/
theorem exists_extract_eq_cut {content : List Char} {line : Nat}
    (blank : Text.IsBlankLine content line) :
    ∃ text, Text.allBlank text = true ∧
      ∀ column, extract content ⟨line, column⟩ = cut text (column - 1) := by
  obtain ⟨⟨first, -⟩, raw, found, rawBlank⟩ := blank
  obtain ⟨row, rfl⟩ := Nat.exists_eq_add_of_le' first
  refine ⟨dropReturn raw, allBlank_dropReturn rawBlank, fun column => ?_⟩
  rw [Nat.add_sub_cancel] at found
  simp only [extract, found]

end CursorLine

/-! ## The node -/

namespace Context

variable {lookup : Lookup} {content : List Char} {position : Position}
  {semantic : Option SemanticTree} {config : Config}

/-- The context of a position of a YAML document has the node that indentation tells, and would have
it whatever nodes the cursor touched and however far it reached to the left. -/
structure PlacedByIndentation (lookup : Lookup) (content : List Char) (position : Position)
    (semantic : Option SemanticTree) (config : Config) (node : Node) : Prop where
  node_eq : (build lookup content position .yaml semantic config).node = some node
  enclosing_eq : (build lookup content position .yaml semantic config).enclosing = some node
  untouched : ∀ (touching : LineFile) (other : Config),
    (build { lookup with touching } content position .yaml semantic other).node = some node

/-- What is built for a position inside the content. -/
theorem build_eq (first : 1 ≤ position.line) (counted : position.line ≤ Text.lineCount content)
    (format : Format) :
    let context := build lookup content position format semantic config
    let text := CursorLine.extract content position
    context.enclosing = enclosingNode lookup position format text ∧
      context.node = chooseNode format text (lookup.deepestAt position config.positionLeeway)
        context.enclosing ∧
      context.path = (context.node.map lookup.tree.pathOf).getD [] := by
  have inside :
      ¬(position.line == 0 || decide (Text.lineCount content < position.line)) = true := by
    simp only [Bool.or_eq_true, beq_iff_eq, decide_eq_true_eq]
    omega
  simp only [build, if_neg inside, ofText, and_self]

theorem chooseNode_of_isBlank {text : CursorLine} (blank : text.isBlank = true)
    (touched : Option Node) (enclosing : Node) :
    chooseNode .yaml text touched (some enclosing) = some enclosing := by
  cases touched with
  | none => rfl
  | some node =>
      have refused : ¬(Format.yaml == Format.jsonc || !node.isRoot && !text.isBlank) = true := by
        rw [blank, Bool.not_true, Bool.and_false]
        exact Bool.false_ne_true
      rw [chooseNode, if_neg refused]
      rfl

theorem placedByIndentation_of_isBlank (first : 1 ≤ position.line)
    (counted : position.line ≤ Text.lineCount content)
    (blank : (CursorLine.extract content position).isBlank = true) :
    PlacedByIndentation lookup content position semantic config
      (lookup.enclosing position.line (CursorLine.extract content position).indentation) := by
  constructor
  · obtain ⟨enclosing, node, -⟩ := build_eq first counted .yaml
    rw [node, enclosing]
    exact chooseNode_of_isBlank blank _ _
  · obtain ⟨enclosing, -, -⟩ := build_eq first counted .yaml
    exact enclosing
  · intro touching other
    obtain ⟨enclosing, node, -⟩ := build_eq first counted .yaml
    rw [node, enclosing, ← lookup.enclosing_withTouching touching]
    exact chooseNode_of_isBlank blank _ _

theorem PlacedByIndentation.path_eq {node : Node} (first : 1 ≤ position.line)
    (counted : position.line ≤ Text.lineCount content)
    (placed : PlacedByIndentation lookup content position semantic config node) :
    (build lookup content position .yaml semantic config).path = lookup.tree.pathOf node := by
  obtain ⟨-, -, path⟩ := build_eq first counted .yaml
  rw [path, placed.node_eq]
  rfl

/-- **Indenting further on a line of white space never leads up.** At every column of such a line
the node is the one that indentation tells, not one that the cursor touches. Further to the right it
is the same node or one below it, and the path there begins with the path here. -/
theorem indenting_never_leads_up (lookup : Lookup) (content : List Char)
    (semantic : Option SemanticTree) (config : Config) {line : Nat}
    (blank : Text.IsBlankLine content line) {near far : Nat} (further : near ≤ far) :
    ∃ outer inner,
      PlacedByIndentation lookup content ⟨line, near⟩ semantic config outer ∧
      PlacedByIndentation lookup content ⟨line, far⟩ semantic config inner ∧
      (outer = inner ∨ outer ∈ lookup.tree.ancestors inner) ∧
      (build lookup content ⟨line, near⟩ .yaml semantic config).path <+:
        (build lookup content ⟨line, far⟩ .yaml semantic config).path := by
  have first := blank.counted.1
  have counted := blank.le_lineCount
  obtain ⟨text, textBlank, extracted⟩ := CursorLine.exists_extract_eq_cut blank
  have placed : ∀ column, PlacedByIndentation lookup content ⟨line, column⟩ semantic config
      (lookup.enclosing line (CursorLine.cut text (column - 1)).indentation) := by
    intro column
    rw [← extracted column]
    apply placedByIndentation_of_isBlank first counted
    rw [extracted column]
    exact textBlank
  have deeper := lookup.enclosing_mem_lineage line
    (CursorLine.indentation_cut_le text (Nat.sub_le_sub_right further 1))
  refine ⟨_, _, placed near, placed far, List.mem_cons.mp deeper, ?_⟩
  rw [(placed near).path_eq first counted, (placed far).path_eq first counted]
  exact Tree.pathOf_isPrefix_of_mem_lineage _ (lookup.enclosing_mem_nodes line _) _ deeper

end Context

/-! ### A line below two entries -/

namespace Context.BelowTwoLevels

/-- Four spaces below an entry that is indented by two. -/
def content : List Char := "orders:\n  tags: x\n    \n".toList

/-- With one space the cursor is in `orders`, with four in `tags`. -/
theorem indenting_never_leads_up_belowTwoLevels :
    Text.IsBlankLine content 3 ∧
      (build (.build Lookup.TwoLevels.tree) content ⟨3, 2⟩ .yaml none {}).path =
        [.field "orders"] ∧
      (build (.build Lookup.TwoLevels.tree) content ⟨3, 5⟩ .yaml none {}).path =
        [.field "orders", .field "tags"] ∧
      ∃ outer inner,
        PlacedByIndentation (.build Lookup.TwoLevels.tree) content ⟨3, 2⟩ none {} outer ∧
        PlacedByIndentation (.build Lookup.TwoLevels.tree) content ⟨3, 5⟩ none {} inner ∧
        (outer = inner ∨ outer ∈ Lookup.TwoLevels.tree.ancestors inner) := by
  have blank : Text.IsBlankLine content 3 :=
    ⟨by decide, "    ".toList, by decide +kernel, by decide +kernel⟩
  obtain ⟨outer, inner, outerPlaced, innerPlaced, above, -⟩ :=
    indenting_never_leads_up (.build Lookup.TwoLevels.tree) content none {} blank
      (show 2 ≤ 5 by decide)
  exact ⟨blank, by decide +kernel, by decide +kernel, outer, inner, outerPlaced, innerPlaced, above⟩

end Context.BelowTwoLevels

end Blueprint
