import Mathlib.Data.List.Find
import Blueprint.Fragment.Basic
import Blueprint.Proofs.Lookup.Scan
import Blueprint.Proofs.Path.Written
import Blueprint.Proofs.Tree.Lineage

/-!
# Paths lead back to their nodes

A path is made of the roles in a node's lineage, so all nodes below an entry or item share its path
until the next one with a role. The path of a node is therefore the path of the nearest node of its
lineage that has a role (`Tree.addressed?`), and looking it up should lead there.

It does when roles are distinct where it matters (`Tree.DistinctRoles`): of two nodes with the same
role, the nearest ones above them that have a role differ. From this local condition it follows that
two nodes with roles never have the same path (`Tree.eq_of_pathOf_eq`). The lookup takes the first
node in the document, and a node is listed before those that share its path. The written form leads
to the same node if all field names are plain (`Lookup.find?_pathOf_of_distinct`).
-/

set_option autoImplicit false

namespace Blueprint

/-! ## Roles and the nodes they address -/

theorem Role.exists_segment? {role : Role} (addressed : role ≠ .loose) :
    ∃ segment, role.segment? = some segment := by
  cases role with
  | field name => exact ⟨_, rfl⟩
  | item number => exact ⟨_, rfl⟩
  | loose => exact absurd rfl addressed

/-- The segment that a role adds to a path tells the role. -/
theorem Role.eq_of_segment? {role other : Role} {segment : Segment}
    (adds : role.segment? = some segment) (otherAdds : other.segment? = some segment) :
    role = other := by
  cases role with
  | field name =>
      obtain rfl := Option.some.inj adds
      cases other with
      | field otherName =>
          exact congrArg Role.field (Segment.field.inj (Option.some.inj otherAdds)).symm
      | item number => cases otherAdds
      | loose => cases otherAdds
  | item number =>
      obtain rfl := Option.some.inj adds
      cases other with
      | field name => cases otherAdds
      | item otherNumber =>
          exact congrArg Role.item (Segment.index.inj (Option.some.inj otherAdds)).symm
      | loose => cases otherAdds
  | loose => cases adds

/-- Whether a node is an entry or an item. -/
def Node.hasRole (node : Node) : Bool := node.role != .loose

theorem Node.hasRole_iff {node : Node} : node.hasRole = true ↔ node.role ≠ .loose := bne_iff_ne

namespace Tree

/-- The nearest node of a lineage that has a role. -/
def addressed? (tree : Tree) (node : Node) : Option Node :=
  (tree.lineage node).find? Node.hasRole

/-- The nearest ancestor that has a role. -/
def addressedAbove? (tree : Tree) (node : Node) : Option Node :=
  (tree.ancestors node).find? Node.hasRole

/-- Different nodes with the same role have different nearest ancestors with a role. -/
def DistinctRoles (tree : Tree) : Prop :=
  ∀ first ∈ tree.nodes, ∀ second ∈ tree.nodes, first.role ≠ .loose → first.role = second.role →
    tree.addressedAbove? first = tree.addressedAbove? second → first = second

variable {tree : Tree} {node parent : Node} {segment : Segment}

theorem mem_of_addressedAbove? {upper : Node} (member : node ∈ tree.nodes)
    (found : tree.addressedAbove? node = some upper) : upper ∈ tree.nodes :=
  mem_nodes_of_mem_lineage node member upper
    (List.mem_cons_of_mem _ (List.mem_of_find?_eq_some found))

instance (tree : Tree) : Decidable tree.DistinctRoles :=
  decidable_of_iff (∀ first ∈ tree.nodes, ∀ second ∈ tree.nodes, first.role ≠ .loose →
      first.role = second.role →
        (tree.addressedAbove? first).map Node.id = (tree.addressedAbove? second).map Node.id →
          first.id = second.id) (by
    constructor
    · intro distinct first member second listed addressed sameRole sameAbove
      exact eq_of_id_eq member listed
        (distinct first member second listed addressed sameRole (by rw [sameAbove]))
    · intro distinct first member second listed addressed sameRole sameIds
      refine congrArg Node.id (distinct first member second listed addressed sameRole ?_)
      cases found : tree.addressedAbove? first with
      | none =>
          rw [found, Option.map_none, eq_comm, Option.map_eq_none_iff] at sameIds
          exact sameIds.symm
      | some upper =>
          rw [found, Option.map_some, eq_comm, Option.map_eq_some_iff] at sameIds
          obtain ⟨other, secondFound, sameId⟩ := sameIds
          rw [secondFound, eq_of_id_eq (mem_of_addressedAbove? listed secondFound)
            (mem_of_addressedAbove? member found) sameId])

theorem addressed?_of_role (addressed : node.role ≠ .loose) :
    tree.addressed? node = some node := by
  rw [addressed?, lineage, List.find?_cons_of_pos (Node.hasRole_iff.mpr addressed)]

theorem addressed?_of_loose (loose : node.role = .loose) :
    tree.addressed? node = tree.addressedAbove? node := by
  rw [addressed?, lineage, List.find?_cons_of_neg (by simp [Node.hasRole, loose]),
    addressedAbove?]

theorem addressedAbove?_root (tree : Tree) : tree.addressedAbove? tree.root = none := rfl

theorem addressedAbove?_of_parent? (member : node ∈ tree.nodes)
    (above : tree.parent? node = some parent) :
    tree.addressedAbove? node = tree.addressed? parent := by
  rw [addressedAbove?, ancestors_eq_cons member above, addressed?, lineage]

theorem mem_lineage_of_addressed? {addressed : Node}
    (found : tree.addressed? node = some addressed) : addressed ∈ tree.lineage node :=
  List.mem_of_find?_eq_some found

theorem of_addressedAbove? {upper : Node} (member : node ∈ tree.nodes)
    (found : tree.addressedAbove? node = some upper) :
    upper ∈ tree.nodes ∧ upper.role ≠ .loose :=
  ⟨mem_of_addressedAbove? member found, Node.hasRole_iff.mp (List.find?_some found)⟩

/-! ## The path of a node is the path of the node it is addressed by -/

theorem pathOf_root (tree : Tree) : tree.pathOf tree.root = tree.root.role.segment?.toList := by
  rw [pathOf, lineage_root, List.filterMap_cons, List.filterMap_nil]
  cases tree.root.role.segment? with
  | none => rfl
  | some segment => rfl

theorem pathOf_of_parent? (member : node ∈ tree.nodes) (above : tree.parent? node = some parent) :
    tree.pathOf node = tree.pathOf parent ++ node.role.segment?.toList := by
  rw [pathOf, lineage_eq_cons member above, List.filterMap_cons, pathOf]
  cases node.role.segment? with
  | none => exact (List.append_nil _).symm
  | some segment => exact List.reverse_cons

/-- The path of a node begins with the paths of its ancestors. -/
theorem pathOf_isPrefix_of_mem_lineage :
    ∀ node ∈ tree.nodes, ∀ other ∈ tree.lineage node, tree.pathOf other <+: tree.pathOf node := by
  refine holds_of_parent? ?_ fun node member parent above ih => ?_
  · rw [lineage_root]
    exact List.forall_mem_singleton.mpr List.prefix_rfl
  · rw [lineage_eq_cons member above]
    refine List.forall_mem_cons.mpr ⟨List.prefix_rfl, fun other further => ?_⟩
    rw [pathOf_of_parent? member above]
    exact (ih other further).trans (List.prefix_append _ _)

theorem pathOf_eq_addressed :
    ∀ node ∈ tree.nodes, tree.pathOf node = (tree.addressed? node).elim [] tree.pathOf := by
  refine holds_of_parent? ?_ fun node member parent above ih => ?_
  · by_cases loose : tree.root.role = .loose
    · rw [addressed?_of_loose loose, addressedAbove?_root, pathOf_root, loose]
      rfl
    · rw [addressed?_of_role loose]
      rfl
  · by_cases loose : node.role = .loose
    · rw [addressed?_of_loose loose, addressedAbove?_of_parent? member above, ← ih,
        pathOf_of_parent? member above, loose]
      exact List.append_nil _
    · rw [addressed?_of_role loose]
      rfl

/-- A role puts its segment behind the path of the nearest ancestor with a role. -/
theorem pathOf_eq_concat (member : node ∈ tree.nodes) (adds : node.role.segment? = some segment) :
    tree.pathOf node = (tree.addressedAbove? node).elim [] tree.pathOf ++ [segment] := by
  cases isRoot : node.isRoot with
  | true =>
      obtain rfl := eq_root_of_isRoot member isRoot
      rw [pathOf_root, adds, addressedAbove?_root]
      rfl
  | false =>
      obtain ⟨parent, above⟩ := exists_parent?_of_isRoot_eq_false member isRoot
      rw [pathOf_of_parent? member above, adds, addressedAbove?_of_parent? member above,
        ← pathOf_eq_addressed parent (mem_nodes_of_parent? above)]
      rfl

theorem pathOf_ne_nil (member : node ∈ tree.nodes) (addressed : node.role ≠ .loose) :
    tree.pathOf node ≠ [] := by
  obtain ⟨segment, adds⟩ := Role.exists_segment? addressed
  rw [pathOf_eq_concat member adds]
  exact List.concat_ne_nil _ _

/-! ## Distinct roles make distinct paths -/

/-- Two nodes with roles are the same if their paths are, once this is known of the nearest
ancestor with a role. -/
theorem eq_of_pathOf_eq_of_above (distinct : tree.DistinctRoles) {first second : Node}
    (member : first ∈ tree.nodes) (listed : second ∈ tree.nodes)
    (addressed : first.role ≠ .loose) (secondAddressed : second.role ≠ .loose)
    (same : tree.pathOf first = tree.pathOf second)
    (known : ∀ upper, tree.addressedAbove? first = some upper → ∀ other ∈ tree.nodes,
      other.role ≠ .loose → tree.pathOf upper = tree.pathOf other → upper = other) :
    first = second := by
  obtain ⟨segment, adds⟩ := Role.exists_segment? addressed
  obtain ⟨secondSegment, secondAdds⟩ := Role.exists_segment? secondAddressed
  rw [pathOf_eq_concat member adds, pathOf_eq_concat listed secondAdds] at same
  obtain ⟨above, last⟩ := List.append_inj' same rfl
  rw [(List.cons.inj last).1] at adds
  refine distinct first member second listed addressed (Role.eq_of_segment? adds secondAdds) ?_
  cases found : tree.addressedAbove? first with
  | none =>
      cases secondFound : tree.addressedAbove? second with
      | none => rfl
      | some other =>
          rw [found, secondFound] at above
          obtain ⟨held, hasRole⟩ := of_addressedAbove? listed secondFound
          exact absurd above.symm (pathOf_ne_nil held hasRole)
  | some upper =>
      rw [found] at above
      cases secondFound : tree.addressedAbove? second with
      | none =>
          rw [secondFound] at above
          obtain ⟨held, hasRole⟩ := of_addressedAbove? member found
          exact absurd above (pathOf_ne_nil held hasRole)
      | some other =>
          rw [secondFound] at above
          obtain ⟨held, hasRole⟩ := of_addressedAbove? listed secondFound
          rw [known upper found other held hasRole above]

/-- **Nodes with roles have different paths**, in a tree with distinct roles. The induction goes
down the links and speaks of the node that each node is addressed by, so that loose nodes in
between are passed over. -/
theorem eq_of_pathOf_eq (distinct : tree.DistinctRoles) :
    ∀ node ∈ tree.nodes, ∀ first, tree.addressed? node = some first →
      ∀ second ∈ tree.nodes, second.role ≠ .loose → tree.pathOf first = tree.pathOf second →
        first = second := by
  refine holds_of_parent? ?_ fun node member parent above ih => ?_
  · intro first found second listed secondAddressed same
    by_cases loose : tree.root.role = .loose
    · rw [addressed?_of_loose loose] at found
      cases found
    · rw [addressed?_of_role loose] at found
      obtain rfl := Option.some.inj found
      exact eq_of_pathOf_eq_of_above distinct tree.root_mem_nodes listed loose secondAddressed same
        nofun
  · intro first found second listed secondAddressed same
    by_cases loose : node.role = .loose
    · rw [addressed?_of_loose loose, addressedAbove?_of_parent? member above] at found
      exact ih first found second listed secondAddressed same
    · rw [addressed?_of_role loose] at found
      obtain rfl := Option.some.inj found
      refine eq_of_pathOf_eq_of_above distinct member listed loose secondAddressed same ?_
      rwa [addressedAbove?_of_parent? member above]

/-- The first node that a test accepts is the one with the least number. -/
theorem find?_nodes_eq_some {accepts : Node → Bool} (member : node ∈ tree.nodes)
    (accepted : accepts node = true)
    (least : ∀ other ∈ tree.nodes, accepts other = true → node.id ≤ other.id) :
    tree.nodes.find? accepts = some node := by
  obtain ⟨front, back, split⟩ := List.append_of_mem (Array.mem_toList_iff.mpr member)
  rw [← Array.find?_toList, List.find?_eq_some_iff_append]
  refine ⟨accepted, front, back, split, fun other earlier => ?_⟩
  have numbered := tree.pairwise_id_nodes
  rw [split] at numbered
  have before := (List.pairwise_append.mp numbered).2.2 other earlier node List.mem_cons_self
  have listed : other ∈ tree.nodes := by
    rw [← Array.mem_toList_iff, split]
    exact List.mem_append_left _ earlier
  cases refused : accepts other with
  | false => rfl
  | true =>
      have := least other listed refused
      omega

/-- The segments of a path are those of roles in the tree. -/
theorem exists_role_of_mem_pathOf (member : node ∈ tree.nodes) (step : segment ∈ tree.pathOf node) :
    ∃ other ∈ tree.nodes, other.role.segment? = some segment := by
  rw [pathOf, List.mem_reverse] at step
  obtain ⟨other, further, adds⟩ := List.mem_filterMap.mp step
  exact ⟨other, mem_nodes_of_mem_lineage node member other further, adds⟩

end Tree

/-! ## Looking paths up -/

namespace Lookup

variable {tree : Tree} {node : Node}

/-- The path of a node with a role leads to it: whatever has the same path stands below it. -/
theorem find?_pathOf_of_role (distinct : tree.DistinctRoles) (member : node ∈ tree.nodes)
    (addressed : node.role ≠ .loose) :
    (build tree).find? (tree.pathOf node) = some node := by
  have notRoot := Tree.pathOf_ne_nil member addressed
  rw [find?, tree_build, if_neg (by simpa using notRoot)]
  refine Tree.find?_nodes_eq_some member (beq_self_eq_true _) fun other listed same => ?_
  have samePath : tree.pathOf other = tree.pathOf node := beq_iff_eq.mp same
  have path := Tree.pathOf_eq_addressed other listed
  cases found : tree.addressed? other with
  | none =>
      rw [found, samePath] at path
      exact absurd path notRoot
  | some first =>
      rw [found, samePath] at path
      have first_eq := Tree.eq_of_pathOf_eq distinct other listed first found node member addressed
        path.symm
      exact Tree.id_le_of_mem_lineage other listed node
        (first_eq ▸ Tree.mem_lineage_of_addressed? found)

theorem find?_pathOf_of_loose (distinct : tree.DistinctRoles) (member : node ∈ tree.nodes)
    (loose : node.role = .loose) :
    (build tree).find? (tree.pathOf node) =
      some ((tree.addressedAbove? node).getD tree.root) := by
  rw [Tree.pathOf_eq_addressed node member, Tree.addressed?_of_loose loose]
  cases found : tree.addressedAbove? node with
  | none => rfl
  | some upper =>
      obtain ⟨held, hasRole⟩ := Tree.of_addressedAbove? member found
      exact find?_pathOf_of_role distinct held hasRole

theorem findWritten?_render (plain : ∀ node ∈ tree.nodes, ∀ segment,
      node.role.segment? = some segment → segment.Plain) (member : node ∈ tree.nodes) :
    (build tree).findWritten? (tree.pathOf node).render =
      (build tree).find? (tree.pathOf node) := by
  have plainPath : ∀ other ∈ tree.nodes, ∀ segment ∈ tree.pathOf other, segment.Plain := by
    intro other listed segment step
    obtain ⟨owner, held, adds⟩ := Tree.exists_role_of_mem_pathOf listed step
    exact plain owner held segment adds
  by_cases isRoot : tree.pathOf node = []
  · rw [isRoot]
    rfl
  · obtain ⟨notEmpty, notSlash⟩ := Path.render_ne_root (plainPath node member) isRoot
    rw [findWritten?, if_neg (by simp [notEmpty, notSlash]), find?, if_neg (by simpa using isRoot),
      ← Array.find?_toList, ← Array.find?_toList]
    refine List.find?_congr fun other listed => ?_
    have otherPlain := plainPath other (Array.mem_toList_iff.mp listed)
    rw [Bool.eq_iff_iff, beq_iff_eq, beq_iff_eq]
    constructor
    · exact Path.eq_of_render_eq otherPlain (plainPath node member)
    · exact congrArg Path.render

/-- **Paths lead back to their nodes**, in a tree with distinct roles: the path of an entry or item
to itself, that of any other node to its nearest ancestor with a role or else to the root. If
moreover no field name is empty, has a slash or is written like an index, then written paths lead
to the same nodes. -/
theorem find?_pathOf_of_distinct (tree : Tree) (distinct : tree.DistinctRoles) :
    (∀ node ∈ tree.nodes,
      (node.role ≠ .loose → (build tree).find? (tree.pathOf node) = some node) ∧
        (node.role = .loose → (build tree).find? (tree.pathOf node) =
          some ((tree.addressedAbove? node).getD tree.root))) ∧
      ((∀ node ∈ tree.nodes, ∀ name, node.role = .field name →
          name ≠ "" ∧ '/' ∉ name.toList ∧ ∀ number : Nat, name ≠ "[" ++ number.repr ++ "]") →
        ∀ node ∈ tree.nodes, (build tree).findWritten? (tree.pathOf node).render =
          (build tree).find? (tree.pathOf node)) := by
  refine ⟨fun node member => ⟨find?_pathOf_of_role distinct member,
    find?_pathOf_of_loose distinct member⟩, fun plainNames node member => ?_⟩
  refine findWritten?_render (fun owner held segment adds => ?_) member
  cases isRole : owner.role with
  | field name =>
      rw [isRole] at adds
      obtain rfl := Option.some.inj adds
      exact plainNames owner held name isRole
  | item number =>
      rw [isRole] at adds
      obtain rfl := Option.some.inj adds
      exact trivial
  | loose =>
      rw [isRole] at adds
      cases adds

end Lookup

/-! ### One name at two places -/

namespace Lookup.SharedName

/-- The key `c` stands in an error region of the list under `a`, and again beside `a`. -/
def tree : Tree :=
  .ofDraft (.node (.ofKind .document (.closed ⟨1, 1⟩ ⟨3, 1⟩))
    [.node (.ofKind .mapping (.closed ⟨1, 1⟩ ⟨2, 5⟩))
      [(Draft.node (.ofKind .sequence (.closed ⟨1, 4⟩ ⟨1, 12⟩))
          [(Draft.word "x" 1 5).asItem 0,
            .node (.ofKind .error (.closed ⟨1, 8⟩ ⟨1, 10⟩))
              [Fragment.danglingKey (.word "c" 1 8)]]).under "a" 1 1,
        (Draft.word "y" 2 4).under "c" 2 1]]) true

theorem names_plain : ∀ node ∈ tree.nodes, ∀ name, node.role = .field name →
    name ≠ "" ∧ '/' ∉ name.toList ∧ ∀ number : Nat, name ≠ "[" ++ number.repr ++ "]" := by
  have names : ∀ node ∈ tree.nodes,
      node.role.fieldName?.all (fun name => name == "a" || name == "c") = true := by
    decide +kernel
  intro node member name isField
  have known := names node member
  simp only [isField, Role.fieldName?, Option.all_some, Bool.or_eq_true, beq_iff_eq] at known
  rcases known with rfl | rfl
  · exact ⟨by decide, by decide, fun number => by simp [← String.toList_inj]⟩
  · exact ⟨by decide, by decide, fun number => by simp [← String.toList_inj]⟩

theorem find?_pathOf_of_distinct_sharedName :
    tree.DistinctRoles ∧
      tree.nodes.toList.map (fun node => (tree.pathOf node).render) =
        ["", "", "/a", "/a/[0]", "/a", "/a/c", "/c"] ∧
      ∀ node ∈ tree.nodes, node.role ≠ .loose →
        (build tree).findWritten? (tree.pathOf node).render = some node := by
  have distinct : tree.DistinctRoles := by decide +kernel
  refine ⟨distinct, by decide +kernel, fun node member addressed => ?_⟩
  obtain ⟨structured, written⟩ := find?_pathOf_of_distinct tree distinct
  rw [written names_plain node member]
  exact (structured node member).1 addressed

end Lookup.SharedName

end Blueprint
