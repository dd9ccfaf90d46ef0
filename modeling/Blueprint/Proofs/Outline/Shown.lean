import Blueprint.Proofs.Outline.Walk

/-!
# The outline shows every node once

A node is shown in the outline if it is the root or no error region. The outline loses none of these
nodes and makes up no others: there is one symbol for each, the walk visits them in document order,
and the symbols right below a node's symbol are those of the nodes whose nearest shown ancestor it
is (`Outline.exists_mirrors`). This holds of every tree, however deep its error regions are nested.

The outline is built from the top down while the nodes are numbered in document order.
`Outline.rows` brings the two together: it lists the shown nodes with their symbols, each with the
number of the node that its symbol stands under.
-/

set_option autoImplicit false

namespace Blueprint

/-! ## Shown nodes -/

/-- Whether a node is shown in the outline. -/
def Node.isShown (node : Node) : Bool := node.isRoot || node.kind != .error

namespace Tree

/-- The nodes that are shown in the outline, in document order. -/
def shown (tree : Tree) : List Node := tree.nodes.toList.filter Node.isShown

/-- The nearest ancestor of a node that is shown. -/
def host? (tree : Tree) (node : Node) : Option Node := (tree.ancestors node).find? Node.isShown

theorem host?_of_parent? {tree : Tree} {node parent : Node} (member : node ∈ tree.nodes)
    (above : tree.parent? node = some parent) :
    tree.host? node = if parent.isShown then some parent else tree.host? parent := by
  rw [host?, ancestors_eq_cons member above, List.find?_cons]
  cases parent.isShown <;> rfl

theorem shown_eq_cons (tree : Tree) :
    tree.shown =
      tree.root :: (Draft.numberAllFrom 0 1 1 tree.draft.children).filter Node.isShown := by
  rw [shown, tree.nodes_eq, Draft.number_eq, Draft.numberFrom_eq_cons]
  rfl

theorem nodup_map_id_shown (tree : Tree) : (tree.shown.map Node.id).Nodup := by
  have ids : tree.nodes.toList.map Node.id = List.range' 0 tree.draft.size := by
    rw [tree.nodes_eq, Draft.number_eq]
    exact Draft.map_id_numberFrom tree.draft none 0 0
  refine List.Nodup.sublist (List.filter_sublist.map Node.id) ?_
  rw [ids]
  exact List.nodup_range'

end Tree

/-- Which kind of symbol stands for a node of a kind and, if it is a scalar, of a type. None does
for an error region. -/
inductive SymbolKind.StandsFor : SymbolKind → NodeKind → Option ScalarType → Prop
  | document (type : Option ScalarType) : StandsFor .file .document type
  | mapping (type : Option ScalarType) : StandsFor .object .mapping type
  | sequence (type : Option ScalarType) : StandsFor .array .sequence type
  | key (type : Option ScalarType) : StandsFor .key .key type
  | integer : StandsFor .number .scalar (some .integer)
  | float : StandsFor .number .scalar (some .float)
  | boolean : StandsFor .boolean .scalar (some .boolean)
  | null : StandsFor .null .scalar (some .null)
  | string : StandsFor .string .scalar (some .string)
  | untyped : StandsFor .string .scalar none

theorem SymbolKind.standsFor_ofEntry {entry : Entry} (notError : entry.kind ≠ .error) :
    (SymbolKind.ofEntry entry).StandsFor entry.kind entry.scalarType := by
  rw [SymbolKind.ofEntry]
  cases isKind : entry.kind with
  | document => exact .document _
  | mapping => exact .mapping _
  | sequence => exact .sequence _
  | key => exact .key _
  | error => exact absurd isKind notError
  | scalar =>
      match entry.scalarType with
      | some .integer => exact .integer
      | some .float => exact .float
      | some .boolean => exact .boolean
      | some .null => exact .null
      | some .string => exact .string
      | none => exact .untyped

/-- What a symbol says of its node: the name of its field, its number or that it is content, its
kind, and the value of a scalar that has one if values are to be shown. -/
structure SymbolEntry.Describes (config : Config) (node : Entry) (symbol : SymbolEntry) :
    Prop where
  name_of_field : ∀ name, node.role = .field name → symbol.name = name
  name_of_item : ∀ number, node.role = .item number → symbol.name = "[" ++ number.repr ++ "]"
  name_of_loose : node.role = .loose → symbol.name = "content"
  kind_standsFor : symbol.kind.StandsFor node.kind node.scalarType
  detail_iff : ∀ text, symbol.detail = some text ↔
    config.scalarSymbolDetail = true ∧ node.kind = .scalar ∧ node.value = some text ∧ text ≠ ""

namespace Outline

/-- An outline has one symbol for each shown node of a tree, in the same order and under the symbol
of the nearest shown ancestor. -/
structure Mirrors (tree : Tree) (config : Config) (outline : List Symbol)
    (symbolOf : Node → Symbol) : Prop where
  single : outline = [symbolOf tree.root]
  walk_eq : (symbolOf tree.root).walk = tree.shown.map symbolOf
  children_eq : ∀ node ∈ tree.shown, (symbolOf node).children =
    (tree.shown.filter fun other => (tree.host? other).map Node.id == some node.id).map symbolOf
  root_name : (symbolOf tree.root).entry.name = "document"
  root_kind : (symbolOf tree.root).entry.kind = .file
  root_detail : (symbolOf tree.root).entry.detail = none
  describes : ∀ node ∈ tree.shown, node.isRoot = false →
    (symbolOf node).entry.Describes config node.entry

variable (totalLines : Nat) (config : Config)

theorem describes_entryOf (next : Option Position) (children : List Symbol) {entry : Entry}
    (notError : entry.kind ≠ .error) :
    (entryOf totalLines config next children entry).Describes config entry := by
  refine ⟨?_, ?_, ?_, SymbolKind.standsFor_ofEntry notError, ?_⟩
  · intro name isField
    simp only [entryOf, nameOf, isField]
  · intro number isItem
    simp only [entryOf, nameOf, isItem]
  · intro isLoose
    simp only [entryOf, nameOf, isLoose]
  · intro text
    simp only [entryOf, detailOf]
    split
    · next detailed =>
        simp only [Bool.and_eq_true, beq_iff_eq] at detailed
        simp [Option.filter_eq_some_iff, detailed]
    · next plain =>
        simp only [Bool.and_eq_true, beq_iff_eq] at plain
        simp only [reduceCtorEq, false_iff]
        intro detailed
        exact plain ⟨detailed.1, detailed.2.1⟩

/-! ## Shown nodes with their symbols -/

/-- A shown node with its symbol, and the number of the node whose symbol is right above. -/
structure Row where
  host : Nat
  node : Node
  symbol : Symbol

mutual
/-- The shown nodes of a draft that is numbered `id`, below the symbol of the node `host`. -/
def rows (host parent depth id : Nat) (next : Option Position) : Draft → List Row
  | .node entry children =>
    if entry.kind == .error then rowsAmong host id (depth + 1) (id + 1) next children
    else
      let limit := entry.span.stop.or next
      let below := symbolsAmong totalLines config limit children
      { host
        node := (Draft.node entry children).toNode (some parent) depth id
        symbol := .node (entryOf totalLines config next below entry) below } ::
        rowsAmong id id (depth + 1) (id + 1) limit children

/-- The shown nodes of sibling drafts that are numbered from `id` on. -/
def rowsAmong (host parent depth id : Nat) (limit : Option Position) : List Draft → List Row
  | [] => []
  | draft :: rest =>
    let next := (rest.head?.map fun sibling => sibling.entry.entryStart).or limit
    rows host parent depth id next draft ++
      rowsAmong host parent depth (id + draft.size) limit rest
end

mutual
/-- The rows are for the nodes that are shown, in document order. -/
theorem map_node_rows : ∀ (draft : Draft) (host parent depth id : Nat) (next : Option Position),
    (rows totalLines config host parent depth id next draft).map Row.node =
      (Draft.numberFrom (some parent) depth id draft).filter Node.isShown
  | .node entry children, host, parent, depth, id, next => by
      have isShown : ((Draft.node entry children).toNode (some parent) depth id).isShown =
          (entry.kind != .error) := rfl
      rw [rows, Draft.numberFrom]
      split
      · next isError =>
          rw [map_node_rowsAmong children, List.filter_cons, isShown,
            if_neg (by simpa using isError)]
      · next notError =>
          rw [List.map_cons, map_node_rowsAmong children, List.filter_cons, isShown,
            if_pos (by simpa using notError)]

theorem map_node_rowsAmong : ∀ (drafts : List Draft) (host parent depth id : Nat)
    (limit : Option Position),
    (rowsAmong totalLines config host parent depth id limit drafts).map Row.node =
      (Draft.numberAllFrom parent depth id drafts).filter Node.isShown
  | [], _, _, _, _, _ => rfl
  | draft :: rest, host, parent, depth, id, limit => by
      rw [rowsAmong, Draft.numberAllFrom, List.map_append, List.filter_append,
        map_node_rows draft, map_node_rowsAmong rest]
end

mutual
/-- The symbols of the rows are the symbols of the outline, each before those below it. -/
theorem map_symbol_rows : ∀ (draft : Draft) (host parent depth id : Nat) (next : Option Position),
    (rows totalLines config host parent depth id next draft).map Row.symbol =
      Symbol.preorderAll (symbolsOf totalLines config next draft)
  | .node entry children, host, parent, depth, id, next => by
      rw [rows, symbolsOf]
      split
      · exact map_symbol_rowsAmong children _ _ _ _ _
      · rw [List.map_cons, map_symbol_rowsAmong children, Symbol.preorderAll, Symbol.preorderAll,
          Symbol.preorder, List.append_nil]

theorem map_symbol_rowsAmong : ∀ (drafts : List Draft) (host parent depth id : Nat)
    (limit : Option Position),
    (rowsAmong totalLines config host parent depth id limit drafts).map Row.symbol =
      Symbol.preorderAll (symbolsAmong totalLines config limit drafts)
  | [], _, _, _, _, _ => by
      rw [rowsAmong, symbolsAmong, Symbol.preorderAll, List.map_nil]
  | draft :: rest, host, parent, depth, id, limit => by
      rw [rowsAmong, symbolsAmong, List.map_append, Symbol.preorderAll_append,
        map_symbol_rows draft, map_symbol_rowsAmong rest]
end

mutual
theorem describes_of_mem_rows : ∀ (draft : Draft) (host parent depth id : Nat)
    (next : Option Position), ∀ row ∈ rows totalLines config host parent depth id next draft,
      row.symbol.entry.Describes config row.node.entry
  | .node entry children, host, parent, depth, id, next => by
      rw [rows]
      split
      · exact describes_of_mem_rowsAmong children _ _ _ _ _
      · next other =>
          have notError : entry.kind ≠ .error := by simpa using other
          exact List.forall_mem_cons.mpr ⟨describes_entryOf totalLines config _ _ notError,
            describes_of_mem_rowsAmong children _ _ _ _ _⟩

theorem describes_of_mem_rowsAmong : ∀ (drafts : List Draft) (host parent depth id : Nat)
    (limit : Option Position),
    ∀ row ∈ rowsAmong totalLines config host parent depth id limit drafts,
      row.symbol.entry.Describes config row.node.entry
  | [], _, _, _, _, _ => by
      rw [rowsAmong]
      exact List.forall_mem_nil _
  | draft :: rest, host, parent, depth, id, limit => by
      rw [rowsAmong]
      exact List.forall_mem_append.mpr ⟨describes_of_mem_rows draft _ _ _ _ _,
        describes_of_mem_rowsAmong rest _ _ _ _ _⟩
end

/-! ## Hosts -/

/-- The rows of a block of numbers: their nodes are numbered in the block, and their symbols stand
under the symbol of `host` or of a node of the block. -/
def InBlock (host first size : Nat) (rows : List Row) : Prop :=
  ∀ row ∈ rows, (first ≤ row.node.id ∧ row.node.id < first + size) ∧
    (row.host = host ∨ (first ≤ row.host ∧ row.host < first + size))

mutual
theorem inBlock_rows : ∀ (draft : Draft) (host parent depth id : Nat) (next : Option Position),
    InBlock host id draft.size (rows totalLines config host parent depth id next draft)
  | .node entry children, host, parent, depth, id, next => by
      rw [rows, Draft.size]
      split
      · intro row member
        have := inBlock_rowsAmong children host id (depth + 1) (id + 1) next row member
        omega
      · refine List.forall_mem_cons.mpr ⟨⟨⟨Nat.le_refl id, by simp [Draft.toNode]⟩, .inl rfl⟩, ?_⟩
        intro row member
        have := inBlock_rowsAmong children id id (depth + 1) (id + 1) _ row member
        omega

theorem inBlock_rowsAmong : ∀ (drafts : List Draft) (host parent depth id : Nat)
    (limit : Option Position),
    InBlock host id (Draft.sizeAll drafts)
      (rowsAmong totalLines config host parent depth id limit drafts)
  | [], _, _, _, _, _ => by
      rw [rowsAmong]
      exact List.forall_mem_nil _
  | draft :: rest, host, parent, depth, id, limit => by
      rw [rowsAmong, Draft.sizeAll]
      refine List.forall_mem_append.mpr ⟨fun row member => ?_, fun row member => ?_⟩
      · have := inBlock_rows draft host parent depth id _ row member
        omega
      · have := inBlock_rowsAmong rest host parent depth (id + draft.size) limit row member
        omega
end

/-- The symbols of the rows that stand under the symbol of a node. -/
def hostedBy (host : Nat) (rows : List Row) : List Symbol :=
  (rows.filter fun row => row.host == host).map Row.symbol

theorem hostedBy_append (host : Nat) (left right : List Row) :
    hostedBy host (left ++ right) = hostedBy host left ++ hostedBy host right := by
  rw [hostedBy, List.filter_append, List.map_append]
  rfl

theorem hostedBy_cons_of_ne {host : Nat} {row : Row} {rows : List Row} (apart : row.host ≠ host) :
    hostedBy host (row :: rows) = hostedBy host rows := by
  rw [hostedBy, List.filter_cons, if_neg (by simpa using apart)]
  rfl

/-- No row of a block stands under a node outside of it. -/
theorem hostedBy_eq_nil {host first size other : Nat} {rows : List Row}
    (block : InBlock host first size rows) (apart : other ≠ host)
    (outside : other < first ∨ first + size ≤ other) : hostedBy other rows = [] := by
  have none_there : rows.filter (fun row => row.host == other) = [] := by
    rw [List.filter_eq_nil_iff]
    intro row member same
    have := (block row member).2
    rw [beq_iff_eq] at same
    omega
  rw [hostedBy, none_there, List.map_nil]

mutual
/-- Right below the host stand the symbols of the draft. -/
theorem hostedBy_rows : ∀ (draft : Draft) (host parent depth id : Nat) (next : Option Position),
    host < id → hostedBy host (rows totalLines config host parent depth id next draft) =
      symbolsOf totalLines config next draft
  | .node entry children, host, parent, depth, id, next, before => by
      rw [rows, symbolsOf]
      split
      · exact hostedBy_rowsAmong children host id (depth + 1) (id + 1) next (by omega)
      · have deeper : hostedBy host (rowsAmong totalLines config id id (depth + 1) (id + 1)
            (entry.span.stop.or next) children) = [] :=
          hostedBy_eq_nil (inBlock_rowsAmong totalLines config children id id _ _ _) (by omega)
            (by omega)
        rw [hostedBy] at deeper
        simp only [hostedBy, List.filter_cons, beq_self_eq_true, if_true, List.map_cons, deeper]

theorem hostedBy_rowsAmong : ∀ (drafts : List Draft) (host parent depth id : Nat)
    (limit : Option Position), host < id →
    hostedBy host (rowsAmong totalLines config host parent depth id limit drafts) =
      symbolsAmong totalLines config limit drafts
  | [], _, _, _, _, _, _ => by
      rw [rowsAmong, symbolsAmong]
      rfl
  | draft :: rest, host, parent, depth, id, limit, before => by
      rw [rowsAmong, symbolsAmong, hostedBy_append, hostedBy_rows draft _ _ _ _ _ before,
        hostedBy_rowsAmong rest _ _ _ _ _ (by omega)]
end

mutual
/-- Right below the symbol of a row stand the symbols of the rows it hosts. -/
theorem children_of_mem_rows : ∀ (draft : Draft) (host parent depth id : Nat)
    (next : Option Position), host < id →
    ∀ row ∈ rows totalLines config host parent depth id next draft, row.symbol.children =
      hostedBy row.node.id (rows totalLines config host parent depth id next draft)
  | .node entry children, host, parent, depth, id, next, before => by
      rw [rows]
      split
      · exact children_of_mem_rowsAmong children host id (depth + 1) (id + 1) next (by omega)
      · refine List.forall_mem_cons.mpr ⟨?_, fun row member => ?_⟩
        · rw [hostedBy_cons_of_ne (by simp only [Draft.toNode]; omega)]
          exact (hostedBy_rowsAmong totalLines config children id id _ _ _ (by omega)).symm
        · have := (inBlock_rowsAmong totalLines config children id id _ _ _ row member).1
          rw [hostedBy_cons_of_ne (by simp only; omega)]
          exact children_of_mem_rowsAmong children id id _ _ _ (by omega) row member

theorem children_of_mem_rowsAmong : ∀ (drafts : List Draft) (host parent depth id : Nat)
    (limit : Option Position), host < id →
    ∀ row ∈ rowsAmong totalLines config host parent depth id limit drafts, row.symbol.children =
      hostedBy row.node.id (rowsAmong totalLines config host parent depth id limit drafts)
  | [], _, _, _, _, _, _ => by
      rw [rowsAmong]
      exact List.forall_mem_nil _
  | draft :: rest, host, parent, depth, id, limit, before => by
      rw [rowsAmong]
      refine List.forall_mem_append.mpr ⟨fun row member => ?_, fun row member => ?_⟩
      · -- the later siblings stand under nodes with greater numbers
        have := (inBlock_rows totalLines config draft host parent depth id _ row member).1
        rw [hostedBy_append, hostedBy_eq_nil (inBlock_rowsAmong totalLines config rest host parent
          depth _ limit) (by omega) (by omega), List.append_nil]
        exact children_of_mem_rows draft _ _ _ _ _ before row member
      · have := (inBlock_rowsAmong totalLines config rest host parent depth _ limit row member).1
        rw [hostedBy_append, hostedBy_eq_nil (inBlock_rows totalLines config draft host parent
          depth id _) (by omega) (by omega), List.nil_append]
        exact children_of_mem_rowsAmong rest _ _ _ _ _ (by omega) row member
end

/-! ## Hosts are the nearest shown ancestors -/

section Ancestors

variable {tree : Tree}

/-- The symbols of all nodes under a parent stand under the symbol of the node `host`. -/
def Hosts (tree : Tree) (host parent : Nat) : Prop :=
  ∀ node ∈ tree.nodes, node.parent = some parent → (tree.host? node).map Node.id = some host

/-- A node that is shown hosts what is right below it, another hands on its own host. -/
theorem Hosts.below {host parent depth id : Nat} {draft : Draft} (hosts : Hosts tree host parent)
    (member : draft.toNode (some parent) depth id ∈ tree.nodes) :
    Hosts tree (if draft.entry.kind == .error then host else id) id := by
  intro node listed isParent
  have above : tree.parent? node = some (draft.toNode (some parent) depth id) := by
    rw [Tree.parent?, isParent, Option.bind_some]
    exact Tree.node?_id member
  have isShown : (draft.toNode (some parent) depth id).isShown =
      (draft.entry.kind != .error) := rfl
  rw [Tree.host?_of_parent? listed above, isShown]
  cases isError : draft.entry.kind == .error with
  | true =>
      rw [bne, isError]
      exact hosts _ member rfl
  | false =>
      rw [bne, isError]
      rfl

mutual
theorem host?_of_mem_rows : ∀ (draft : Draft) (host parent depth id : Nat)
    (next : Option Position), Hosts tree host parent →
    (∀ node ∈ Draft.numberFrom (some parent) depth id draft, node ∈ tree.nodes) →
    ∀ row ∈ rows totalLines config host parent depth id next draft,
      (tree.host? row.node).map Node.id = some row.host
  | .node entry children, host, parent, depth, id, next, hosts, listed => by
      rw [Draft.numberFrom] at listed
      obtain ⟨here, inside⟩ := List.forall_mem_cons.mp listed
      have below := hosts.below here
      rw [Draft.entry_node] at below
      rw [rows]
      split
      · next isError =>
          rw [if_pos isError] at below
          exact host?_of_mem_rowsAmong children host id _ _ _ below inside
      · next notError =>
          rw [if_neg notError] at below
          exact List.forall_mem_cons.mpr ⟨hosts _ here rfl,
            host?_of_mem_rowsAmong children id id _ _ _ below inside⟩

theorem host?_of_mem_rowsAmong : ∀ (drafts : List Draft) (host parent depth id : Nat)
    (limit : Option Position), Hosts tree host parent →
    (∀ node ∈ Draft.numberAllFrom parent depth id drafts, node ∈ tree.nodes) →
    ∀ row ∈ rowsAmong totalLines config host parent depth id limit drafts,
      (tree.host? row.node).map Node.id = some row.host
  | [], _, _, _, _, _, _, _ => by
      rw [rowsAmong]
      exact List.forall_mem_nil _
  | draft :: rest, host, parent, depth, id, limit, hosts, listed => by
      rw [Draft.numberAllFrom] at listed
      obtain ⟨here, later⟩ := List.forall_mem_append.mp listed
      rw [rowsAmong]
      exact List.forall_mem_append.mpr ⟨host?_of_mem_rows draft _ _ _ _ _ hosts here,
        host?_of_mem_rowsAmong rest _ _ _ _ _ hosts later⟩
end

end Ancestors

theorem hosts_root (tree : Tree) : Hosts tree 0 0 := by
  intro node member isParent
  have above : tree.parent? node = some tree.root := by
    rw [Tree.parent?, isParent, Option.bind_some]
    exact Tree.node?_id (Tree.root_mem_nodes tree)
  rw [Tree.host?_of_parent? member above]
  rfl

/-! ## The whole outline -/

/-- Rows for different nodes settle a symbol for each node. -/
theorem exists_symbolOf (rows : List Row) (nodup : (rows.map fun row => row.node.id).Nodup)
    (otherwise : Symbol) :
    ∃ symbolOf : Node → Symbol, ∀ row ∈ rows, symbolOf row.node = row.symbol := by
  induction rows with
  | nil => exact ⟨fun _ => otherwise, List.forall_mem_nil _⟩
  | cons row rest ih =>
      obtain ⟨fresh, nodup⟩ := List.nodup_cons.mp nodup
      obtain ⟨symbolOf, settled⟩ := ih nodup
      refine ⟨fun node => if node.id = row.node.id then row.symbol else symbolOf node,
        List.forall_mem_cons.mpr ⟨if_pos rfl, fun other member => ?_⟩⟩
      have apart : other.node.id ≠ row.node.id := fun same =>
        fresh (List.mem_map.mpr ⟨other, member, same⟩)
      exact (if_neg apart).trans (settled other member)

theorem map_symbolOf {rows : List Row} {symbolOf : Node → Symbol}
    (settled : ∀ row ∈ rows, symbolOf row.node = row.symbol) :
    (rows.map Row.node).map symbolOf = rows.map Row.symbol := by
  rw [List.map_map]
  exact List.map_congr_left settled

section Whole

variable (tree : Tree)

/-- The symbol of the file. -/
def fileSymbol : Symbol :=
  let span := fileSpan totalLines tree.draft.entry.span
  .node { name := "document", detail := none, kind := .file, span, selection := span }
    (symbolsAmong totalLines config span.stop tree.draft.children)

/-- The rows of all shown nodes but the root. -/
def innerRows : List Row :=
  rowsAmong totalLines config 0 0 1 1 (fileSpan totalLines tree.draft.entry.span).stop
    tree.draft.children

theorem shown_eq_rows :
    tree.shown = tree.root :: (innerRows totalLines config tree).map Row.node := by
  rw [Tree.shown_eq_cons, innerRows, map_node_rowsAmong]

theorem host?_of_mem_innerRows : ∀ row ∈ innerRows totalLines config tree,
    (tree.host? row.node).map Node.id = some row.host := by
  refine host?_of_mem_rowsAmong totalLines config tree.draft.children 0 0 1 1 _ (hosts_root tree) ?_
  intro node member
  rw [Tree.mem_nodes_iff, Draft.numberFrom_eq_cons]
  exact List.mem_cons_of_mem _ member

/-! ### Symbols settled for all shown nodes -/

section Settled

variable {tree} {symbolOf : Node → Symbol}
  (root : symbolOf tree.root = fileSymbol totalLines config tree)
  (inner : ∀ row ∈ innerRows totalLines config tree, symbolOf row.node = row.symbol)

include inner

/-- The symbols of the nodes that a node hosts. -/
theorem map_symbolOf_hosted (id : Nat) :
    (tree.shown.filter fun other => (tree.host? other).map Node.id == some id).map symbolOf =
      hostedBy id (innerRows totalLines config tree) := by
  have sameHost : ∀ row ∈ innerRows totalLines config tree,
      ((tree.host? row.node).map Node.id == some id) = (row.host == id) := by
    intro row member
    rw [host?_of_mem_innerRows totalLines config tree row member]
    rfl
  have noHost : tree.host? tree.root = none := rfl
  rw [shown_eq_rows totalLines config, List.filter_cons, noHost, if_neg (by simp), List.filter_map,
    map_symbolOf fun row member => inner row (List.mem_filter.mp member).1, hostedBy]
  exact congrArg _ (List.filter_congr sameHost)

theorem describes_symbolOf : ∀ node ∈ tree.shown, node.isRoot = false →
    (symbolOf node).entry.Describes config node.entry := by
  rw [shown_eq_rows totalLines config]
  intro node member below
  rcases List.mem_cons.mp member with rfl | later
  · cases below
  · obtain ⟨row, listed, rfl⟩ := List.mem_map.mp later
    rw [inner row listed]
    exact describes_of_mem_rowsAmong totalLines config _ 0 0 1 1 _ row listed

include root

theorem walk_symbolOf_root : (symbolOf tree.root).walk = tree.shown.map symbolOf := by
  rw [shown_eq_rows totalLines config, List.map_cons, map_symbolOf inner, root,
    Symbol.walk_eq_preorder, fileSymbol, Symbol.preorder, innerRows, map_symbol_rowsAmong]

theorem children_symbolOf : ∀ node ∈ tree.shown, (symbolOf node).children =
    (tree.shown.filter fun other => (tree.host? other).map Node.id == some node.id).map
      symbolOf := by
  intro node member
  rw [map_symbolOf_hosted totalLines config inner]
  rw [shown_eq_rows totalLines config] at member
  rcases List.mem_cons.mp member with rfl | later
  · rw [root]
    exact (hostedBy_rowsAmong totalLines config _ 0 0 1 1 _ (by omega)).symm
  · obtain ⟨row, listed, rfl⟩ := List.mem_map.mp later
    rw [inner row listed]
    exact children_of_mem_rowsAmong totalLines config _ 0 0 1 1 _ (by omega) row listed

end Settled

/-- **The outline shows every node once**: it is one symbol, and the walk through it visits one
symbol for the root and one for every other node that is no error region, in document order. The
symbols right below a node's symbol are those of the nodes whose nearest shown ancestor it is, and
each symbol says of its node what it should. -/
theorem exists_mirrors :
    ∃ symbolOf, Mirrors tree config (ofDraft totalLines config tree.draft) symbolOf := by
  let top : Row := ⟨0, tree.root, fileSymbol totalLines config tree⟩
  have nodup : ((top :: innerRows totalLines config tree).map fun row => row.node.id).Nodup := by
    have ids := tree.nodup_map_id_shown
    rw [shown_eq_rows totalLines config, List.map_cons, List.map_map] at ids
    exact ids
  obtain ⟨symbolOf, settled⟩ := exists_symbolOf _ nodup top.symbol
  obtain ⟨atRoot, inner⟩ := List.forall_mem_cons.mp settled
  have root : symbolOf tree.root = fileSymbol totalLines config tree := atRoot
  refine ⟨symbolOf, ?_, walk_symbolOf_root totalLines config root inner,
    children_symbolOf totalLines config root inner, ?_, ?_, ?_,
    describes_symbolOf totalLines config inner⟩
  · rw [root]
    rfl
  · rw [root]
    rfl
  · rw [root]
    rfl
  · rw [root]
    rfl

end Whole

end Outline

end Blueprint
