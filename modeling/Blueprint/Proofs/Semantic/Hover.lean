import Blueprint.Hover
import Blueprint.Proofs.Semantic.Chain

/-!
# The node that is shown

Of the chain at a position the deepest node that has something to show is taken, and the chain is
cut there in three (`Hover.Picks`). Nothing is shown only where no node of the chain has something
to show (`Hover.ofChain?_eq_none_iff`).

A reference can also stand behind an argument or a text that holds just one substitution. These have
nothing to show, so for the node that is shown the kind alone tells whether it points at something
(`Element.isSome_target?`).
-/

set_option autoImplicit false

namespace Blueprint

/-- An element with something to show points at something just if it is a reference. -/
theorem Element.isSome_target? {element : Element} (shown : element.kind.supportsHover = true) :
    element.target?.isSome = element.kind.isReference := by
  cases element with
  | substitution inner => cases inner <;> rfl
  | functionArg | templateText => cases shown
  | content inner => cases inner <;> rfl
  | _ => rfl

namespace Hover

variable {hover : Hover} {chain deeper : List SemanticTree}

/-- What is shown of a chain: its deepest node with something to show, between the nodes above and
below. -/
structure Picks (hover : Hover) (chain : List SemanticTree) : Prop where
  split : hover.ancestors ++ [hover.node] ++ hover.descendants = chain
  kind : hover.kind = hover.node.kind
  shown : hover.node.kind.supportsHover = true
  deepest : ∀ node ∈ hover.descendants, node.kind.supportsHover = false

theorem search_eq_none_iff :
    search deeper chain = none ↔ ∀ node ∈ chain, node.kind.supportsHover = false := by
  induction chain generalizing deeper with
  | nil => simp [search]
  | cons node shallower ih =>
      rw [search, List.forall_mem_cons]
      cases shows : node.kind.supportsHover with
      | true => simp
      | false => simpa using ih

/-- The search keeps the chain whole: what has been passed, the node it is at, what is ahead. -/
theorem picks_of_search (silent : ∀ node ∈ deeper, node.kind.supportsHover = false)
    (found : search deeper chain = some hover) : hover.Picks (chain.reverse ++ deeper) := by
  induction chain generalizing deeper with
  | nil => cases found
  | cons node shallower ih =>
      rw [search] at found
      cases shows : node.kind.supportsHover with
      | true =>
          rw [if_pos shows] at found
          cases found
          exact ⟨by simp, rfl, shows, silent⟩
      | false =>
          rw [if_neg (ne_true_of_eq_false shows)] at found
          have passed := ih (List.forall_mem_cons.mpr ⟨shows, silent⟩) found
          rwa [List.reverse_cons, List.append_assoc, List.singleton_append]

theorem ofChain?_eq_none_iff :
    ofChain? chain = none ↔ ∀ node ∈ chain, node.kind.supportsHover = false := by
  simp [ofChain?, search_eq_none_iff]

theorem picks_of_ofChain? (found : ofChain? chain = some hover) : hover.Picks chain := by
  simpa using picks_of_search (List.forall_mem_nil _) found

/-- What is shown points at something just if it is of the kind of a reference. -/
theorem Picks.isSome_target? (picks : hover.Picks chain) :
    hover.target?.isSome = hover.kind.isReference := by
  have shown := picks.shown
  rw [picks.kind]
  rw [SemanticTree.kind] at shown ⊢
  rw [target?, element]
  cases here : hover.node.entry.element with
  | none =>
      rw [here] at shown
      cases shown
  | some element =>
      rw [here] at shown
      exact Element.isSome_target? shown

open SemanticTree

/-- **What is shown at a position is the deepest node with something to show.** It is taken from
the chain at the position, which goes as far down as it can and, in a tree that settles the
position, is all nodes that contain it by increasing depth. -/
theorem at?_picks_deepest (tree : SemanticTree) (position : Position) :
    (MaximalDescent position tree (tree.chainAt position) ∧
      (tree.chainAt position = [] ↔ tree.entry.span.contains position = false) ∧
      (tree.Settles position → tree.nodes.filter (isAt position) = tree.chainAt position ∧
        (tree.levels 0).filter (fun level => isAt position level.1) =
          (tree.chainAt position).zipIdx)) ∧
    (at? tree position = none ↔
      ∀ node ∈ tree.chainAt position, node.kind.supportsHover = false) ∧
    ∀ hover, at? tree position = some hover →
      hover.Picks (tree.chainAt position) ∧ hover.target?.isSome = hover.kind.isReference := by
  refine ⟨⟨maximalDescent_chainAt position tree, chainAt_eq_nil_iff, fun settles => ?_⟩,
    ofChain?_eq_none_iff, fun hover found => ?_⟩
  · exact ⟨filter_nodes settles, filter_levels position tree settles 0⟩
  · have picks := picks_of_ofChain? found
    exact ⟨picks, picks.isSome_target?⟩

/-- A reference in a text in a resource, beside another field. -/
def imageTree : SemanticTree :=
  let reference := Substitution.variableRef "tag"
  .node ⟨"resource", "", .closed ⟨1, 1⟩ ⟨9, 1⟩, some (.resourceDefinition ⟨"web", none, none, []⟩)⟩
    [.node ⟨"type", "", .closed ⟨2, 3⟩ ⟨2, 20⟩, some (.resourceType "aws/lambda")⟩ [],
      .node ⟨"image", "", .closed ⟨3, 3⟩ ⟨3, 30⟩, some (.templateText ⟨[.substitution reference]⟩)⟩
        [.node ⟨"reference", "", .closed ⟨3, 12⟩ ⟨3, 25⟩, some (.substitution reference)⟩
          [.node ⟨"name", "", .openAt ⟨3, 22⟩, none⟩ []]]]

theorem at?_picks_deepest_image :
    imageTree.Settles ⟨3, 24⟩ ∧
    (imageTree.nodes.filter (isAt ⟨3, 24⟩)).map (fun node => node.entry.label) =
      ["resource", "image", "reference", "name"] ∧
    ∃ hover, at? imageTree ⟨3, 24⟩ = some hover ∧ hover.node.entry.label = "reference" ∧
      hover.descendants.length = 1 ∧ hover.target?.isSome = true := by
  obtain ⟨⟨-, -, settled⟩, -, found⟩ := at?_picks_deepest imageTree ⟨3, 24⟩
  have settles : imageTree.Settles ⟨3, 24⟩ := by decide
  refine ⟨settles, ?_, ?_⟩
  · rw [(settled settles).1]
    rfl
  · obtain ⟨-, target⟩ := found _ rfl
    exact ⟨_, rfl, rfl, rfl, target⟩

end Hover

end Blueprint
