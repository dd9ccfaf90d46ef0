import Blueprint.Proofs.Conversion.Nesting

/-!
# What a node can amount to

The formats know many kinds of nodes, but a node comes to its fragment in only a few ways: it adds
nothing, it is a piece of punctuation or the type of a scalar, a scalar, an error region, a mapping
or a sequence of its children, an entry or an item waiting for its container, or a wrapper around
its content. `Fragment.ofNode_made` says so for both formats at once. What is to hold of the
fragment of every tree then has to be shown for each way of making one, and
`ParseTree.fold_of_made` carries it from the leaves up.
-/

set_option autoImplicit false

namespace Blueprint

/-- Whether a kind of node does nothing but wrap its content. -/
def Format.isWrapper : Format → String → Bool
  | .yaml, kind => ["stream", "document", "block_node", "flow_node"].contains kind
  | .jsonc, kind => kind == "document"

/-- The children of a wrapper that count: of a stream only the first document and the error regions,
of every other wrapper all. -/
def Format.kept (format : Format) (kind : String) (children : List (Visited Fragment)) :
    List (Visited Fragment) :=
  match format with
  | .yaml => if kind == "stream" then Fragment.Yaml.keepFirstDocument children else children
  | .jsonc => children

namespace Fragment

/-- The ways in which a node and the fragments of its children make a fragment. -/
inductive Made (format : Format) (source : Text.LineTable) (label : ParseNode)
    (children : List (Visited Fragment)) : Fragment → Prop
  | skip : Made format source label children .skip
  | token : Made format source label children (.token label.kind)
  | tag (type : ScalarType) : Made format source label children (.tag type)
  | scalar (value : String) (type : ScalarType) :
      Made format source label children
        (.node ((Draft.scalar value type (label.spanIn source)).withConcreteKind label.kind))
  | error (flagged : label.error = true) :
      Made format source label children (.node (errorRegion (label.spanIn source) children))
  | mapping :
      Made format source label children (.node (mapping (label.spanIn source) label.kind children))
  | sequence :
      Made format source label children (.node (sequence (label.spanIn source) label.kind children))
  | pair (isPair : format.isPair label.kind = true) :
      Made format source label children (.pair (.ofChildren (label.spanIn source) children))
  | item :
      Made format source label children
        (.item (children.findSome? fun child => child.result.draft?) (label.spanIn source))
  | wrapper (isWrapper : format.isWrapper label.kind = true) {kept : List (Visited Fragment)}
      (isKept : kept = format.kept label.kind children) :
      Made format source label children (collapse kept)

theorem kept_sublist (format : Format) (kind : String) (children : List (Visited Fragment)) :
    (format.kept kind children).Sublist children := by
  cases format with
  | jsonc => exact .refl children
  | yaml =>
      rw [Format.kept]
      split
      · exact keepFirstDocument_sublist children
      · exact .refl children

section Named

variable (source : Text.LineTable) (label : ParseNode) (children : List (Visited Fragment))

theorem yaml_ofNamed_made :
    Made .yaml source label children (Yaml.ofNamed source label children) := by
  unfold Yaml.ofNamed
  split
  · next kind => exact .wrapper (by rw [kind]; rfl) (by rw [kind]; rfl)
  · next kind => exact .wrapper (by rw [kind]; rfl) (by rw [kind]; rfl)
  · next kind => exact .wrapper (by rw [kind]; rfl) (by rw [kind]; rfl)
  · next kind => exact .wrapper (by rw [kind]; rfl) (by rw [kind]; rfl)
  · exact .mapping
  · exact .mapping
  · next kind => exact .pair (by rw [kind]; rfl)
  · next kind => exact .pair (by rw [kind]; rfl)
  · exact .sequence
  · exact .sequence
  · exact .item
  · exact .scalar _ _
  · exact .tag _
  · exact .tag _
  · exact .tag _
  · exact .tag _
  · exact .tag _
  · exact .scalar _ _
  · exact .scalar _ _
  · exact .scalar _ _
  · exact .scalar _ _
  · exact .skip

theorem jsonc_ofNamed_made :
    Made .jsonc source label children (Jsonc.ofNamed source label children) := by
  unfold Jsonc.ofNamed
  simp only
  split
  · next kind => exact .wrapper (by rw [kind]; rfl) rfl
  · exact .mapping
  · next kind => exact .pair (by rw [kind]; rfl)
  · exact .sequence
  · exact .scalar _ _
  · exact .scalar _ _
  · exact .scalar _ _
  · exact .scalar _ _
  · exact .scalar _ _
  · exact .skip

/-- **Every node comes to its fragment in one of these ways.** -/
theorem ofNode_made (format : Format) :
    Made format source label children (ofNode format source label children) := by
  unfold ofNode
  split
  · exact .skip
  · split
    · next flagged => exact .error flagged
    · split
      · exact .token
      · cases format with
        | yaml => exact yaml_ofNamed_made source label children
        | jsonc => exact jsonc_ofNamed_made source label children

end Named

end Fragment

namespace ParseTree

variable {format : Format} {source : Text.LineTable} {holds : Fragment → Prop}

mutual
/-- What every way of making a fragment keeps holds of the fragment of every tree. -/
theorem fold_of_made (keeps : ∀ label children fragment,
    (∀ child ∈ children, holds (Visited.result child)) →
      Fragment.Made format source label children fragment → holds fragment) :
    ∀ tree : ParseTree, holds (tree.fold (Fragment.ofNode format source))
  | .node label children => by
      rw [fold]
      exact keeps label _ _ (foldAll_of_made keeps children)
        (Fragment.ofNode_made source label _ format)

theorem foldAll_of_made (keeps : ∀ label children fragment,
    (∀ child ∈ children, holds (Visited.result child)) →
      Fragment.Made format source label children fragment → holds fragment) :
    ∀ trees : List ParseTree,
      ∀ child ∈ foldAll (Fragment.ofNode format source) trees, holds child.result
  | [] => List.forall_mem_nil _
  | tree :: rest => by
      rw [foldAll]
      exact List.forall_mem_cons.mpr ⟨fold_of_made keeps tree, foldAll_of_made keeps rest⟩
end

end ParseTree

end Blueprint
