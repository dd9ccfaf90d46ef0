import Blueprint.Fragment.Document
import Blueprint.Proofs.Conversion.Writing
import Blueprint.Proofs.ParseTree.Walk

/-!
# One tree for three notations

A datum may be written in JSON, in flow YAML or in block YAML. Whatever the style, the parse tree
becomes the draft of the datum (`toDraft_of_writesDocument`), so the document trees agree node for
node (`tree_independent_of_style`).

The proof follows the datum. Of the way a node is read it needs two things: that trivia is not heard
(`heard`), and what each of the parser's words amounts to.
-/

set_option autoImplicit false

namespace Blueprint

/-! ## Trivia is not heard -/

namespace Fragment

/-- Punctuation and nothing at all are not heard. -/
def isHeard : Fragment → Bool
  | token _ => false
  | skip => false
  | _ => true

/-- The children that are heard. -/
def heard (children : List (Visited Fragment)) : List (Visited Fragment) :=
  children.filter fun child => child.result.isHeard

theorem eq_token_or_skip_of_not_isHeard {fragment : Fragment}
    (silent : fragment.isHeard = false) : (∃ kind, fragment = token kind) ∨ fragment = skip := by
  cases fragment with
  | token kind => exact .inl ⟨kind, rfl⟩
  | skip => exact .inr rfl
  | node draft => cases silent
  | pair entry => cases silent
  | item content span => cases silent
  | tag type => cases silent

theorem draft?_of_not_isHeard {fragment : Fragment} (silent : fragment.isHeard = false) :
    fragment.draft? = none := by
  rcases eq_token_or_skip_of_not_isHeard silent with ⟨kind, rfl⟩ | rfl <;> rfl

theorem tag?_of_not_isHeard {fragment : Fragment} (silent : fragment.isHeard = false) :
    fragment.tag? = none := by
  rcases eq_token_or_skip_of_not_isHeard silent with ⟨kind, rfl⟩ | rfl <;> rfl

theorem mappingChild?_of_not_isHeard {fragment : Fragment} (silent : fragment.isHeard = false) :
    fragment.mappingChild? = none := by
  rcases eq_token_or_skip_of_not_isHeard silent with ⟨kind, rfl⟩ | rfl <;> rfl

theorem take_of_not_isHeard (pair : Pair) {child : Visited Fragment}
    (silent : child.result.isHeard = false) : pair.take child = pair := by
  obtain ⟨kind, field, result⟩ := child
  rcases eq_token_or_skip_of_not_isHeard silent with ⟨word, rfl⟩ | rfl <;> cases field <;> rfl

/-- Reading off what is heard is reading off everything. -/
theorem filterMap_heard {Part : Type} {part : Fragment → Option Part}
    (silence : ∀ {fragment : Fragment}, fragment.isHeard = false → part fragment = none)
    (children : List (Visited Fragment)) :
    (heard children).filterMap (fun child => part child.result) =
      children.filterMap fun child => part child.result := by
  induction children with
  | nil => rfl
  | cons child rest ih =>
      rw [heard] at ih ⊢
      cases spoken : child.result.isHeard with
      | true => simp only [List.filter_cons, spoken, if_true, List.filterMap_cons, ih]
      | false =>
          simp only [List.filter_cons, spoken, Bool.false_eq_true, if_false, List.filterMap_cons,
            silence spoken, ih]

theorem findSome?_heard {Part : Type} {part : Fragment → Option Part}
    (silence : ∀ {fragment : Fragment}, fragment.isHeard = false → part fragment = none)
    (children : List (Visited Fragment)) :
    (heard children).findSome? (fun child => part child.result) =
      children.findSome? fun child => part child.result := by
  rw [← List.head?_filterMap, ← List.head?_filterMap, filterMap_heard silence]

theorem collapse_heard (children : List (Visited Fragment)) :
    collapse (heard children) = collapse children := by
  rw [collapse, collapse, filterMap_heard draft?_of_not_isHeard]

theorem mapping_heard (span : Span) (kind : String) (children : List (Visited Fragment)) :
    mapping span kind (heard children) = mapping span kind children := by
  rw [mapping, mapping, filterMap_heard mappingChild?_of_not_isHeard]

theorem itemsFrom_heard (number : Nat) (children : List (Visited Fragment)) :
    itemsFrom number (heard children) = itemsFrom number children := by
  induction children generalizing number with
  | nil => rfl
  | cons child rest ih =>
      obtain ⟨kind, field, result⟩ := child
      cases result <;> simp only [heard, List.filter_cons, isHeard] at ih ⊢ <;>
        simp only [if_true, Bool.false_eq_true, if_false, itemsFrom, ih]

theorem sequence_heard (span : Span) (kind : String) (children : List (Visited Fragment)) :
    sequence span kind (heard children) = sequence span kind children := by
  rw [sequence, sequence, itemsFrom_heard]

theorem ofChildren_heard (span : Span) (children : List (Visited Fragment)) :
    Pair.ofChildren span (heard children) = .ofChildren span children := by
  rw [Pair.ofChildren, Pair.ofChildren]
  generalize (⟨none, none, span⟩ : Pair) = pair
  induction children generalizing pair with
  | nil => rfl
  | cons child rest ih =>
      rw [heard] at ih ⊢
      cases spoken : child.result.isHeard with
      | true => simp only [List.filter_cons, spoken, if_true, List.foldl_cons, ih]
      | false =>
          simp only [List.filter_cons, spoken, Bool.false_eq_true, if_false, List.foldl_cons,
            take_of_not_isHeard pair spoken, ih]

/-- What a named node amounts to. -/
def ofNamed : Format → Text.LineTable → ParseNode → List (Visited Fragment) → Fragment
  | .yaml => Yaml.ofNamed
  | .jsonc => Jsonc.ofNamed

section Reading

variable {label : ParseNode} (source : Text.LineTable) (children : List (Visited Fragment))

theorem ofNode_unnamed (format : Format) (present : label.missing = false)
    (sound : label.error = false) (unnamed : label.named = false) :
    ofNode format source label children = token label.kind := by
  simp [ofNode, present, sound, unnamed]

theorem ofNode_named (format : Format) (present : label.missing = false)
    (sound : label.error = false) (named : label.named = true) :
    ofNode format source label children = ofNamed format source label children := by
  cases format <;> simp [ofNode, ofNamed, present, sound, named]

end Reading

/-- Trivia amounts to punctuation or to nothing. -/
theorem isHeard_of_isTrivia (format : Format) (source : Text.LineTable) {tree : ParseTree}
    (trivia : tree.isTrivia = true) : (tree.fold (ofNode format source)).isHeard = false := by
  obtain ⟨label, children⟩ := tree
  simp only [ParseTree.isTrivia, ParseTree.label, Bool.and_eq_true, Bool.not_eq_true'] at trivia
  obtain ⟨⟨present, sound⟩, quiet⟩ := trivia
  rw [ParseTree.fold]
  cases named : label.named with
  | false =>
      rw [ofNode_unnamed source _ format present sound named]
      rfl
  | true =>
      have kinds : label.kind = "comment" ∨ label.kind = "anchor" ∨ label.kind = "tag" := by
        simpa [named] using quiet
      rw [ofNode_named source _ format present sound named]
      cases format <;> rcases kinds with kind | kind | kind <;>
        simp [ofNamed, Yaml.ofNamed, Jsonc.ofNamed, kind, isHeard]

theorem heard_foldAll (format : Format) (source : Text.LineTable) (trees : List ParseTree) :
    heard (ParseTree.foldAll (ofNode format source) (trees.filter fun tree => !tree.isTrivia)) =
      heard (ParseTree.foldAll (ofNode format source) trees) := by
  induction trees with
  | nil => rfl
  | cons tree rest ih =>
      cases trivia : tree.isTrivia with
      | false =>
          simp only [List.filter_cons, trivia, Bool.not_false, if_true, ParseTree.foldAll, heard]
            at ih ⊢
          rw [ih]
      | true =>
          simp only [List.filter_cons, trivia, Bool.not_true, Bool.false_eq_true, if_false,
            ParseTree.foldAll, heard, isHeard_of_isTrivia format source trivia] at ih ⊢
          exact ih

/-- A reading that hears no trivia makes of a node's children what it makes of its parts. -/
theorem read_children {Outcome : Type} {read : List (Visited Fragment) → Outcome}
    (deaf : ∀ children, read (heard children) = read children) (format : Format)
    (source : Text.LineTable) {kind : String} {parts : List ParseTree} {tree : ParseTree}
    (node : IsNode kind parts tree) :
    read (ParseTree.foldAll (ofNode format source) tree.children) =
      read (ParseTree.foldAll (ofNode format source) parts) := by
  rw [← deaf, ← heard_foldAll, node.parts_eq, deaf]

/-! ## What each of the parser's words amounts to -/

section Words

variable {source : Text.LineTable} {parts : List ParseTree} {tree : ParseTree}

theorem fold_named (format : Format) {kind : String} (node : IsNode kind parts tree) :
    tree.fold (ofNode format source) =
      ofNamed format source tree.label
        (ParseTree.foldAll (ofNode format source) tree.children) := by
  obtain ⟨label, children⟩ := tree
  exact ofNode_named source _ format node.present node.sound node.named

theorem fold_mapping (style : Style) (node : IsNode style.mappingKind parts tree) :
    tree.fold (ofNode style.format source) =
      .node (mapping (tree.label.spanIn source) style.mappingKind
        (ParseTree.foldAll (ofNode style.format source) parts)) := by
  rw [← read_children (mapping_heard _ _) style.format source node, fold_named style.format node]
  have kind := node.kind_eq
  cases style <;>
    simp [ofNamed, Style.format, Yaml.ofNamed, Jsonc.ofNamed, Style.mappingKind, kind]

theorem fold_sequence (style : Style) (node : IsNode style.sequenceKind parts tree) :
    tree.fold (ofNode style.format source) =
      .node (sequence (tree.label.spanIn source) style.sequenceKind
        (ParseTree.foldAll (ofNode style.format source) parts)) := by
  rw [← read_children (sequence_heard _ _) style.format source node, fold_named style.format node]
  have kind := node.kind_eq
  cases style <;>
    simp [ofNamed, Style.format, Yaml.ofNamed, Jsonc.ofNamed, Style.sequenceKind, kind]

theorem fold_pair (style : Style) (node : IsNode style.pairKind parts tree) :
    tree.fold (ofNode style.format source) =
      .pair (.ofChildren (tree.label.spanIn source)
        (ParseTree.foldAll (ofNode style.format source) parts)) := by
  rw [← read_children (ofChildren_heard _) style.format source node, fold_named style.format node]
  have kind := node.kind_eq
  cases style <;>
    simp [ofNamed, Style.format, Yaml.ofNamed, Jsonc.ofNamed, Style.pairKind, kind]

/-- A wrapper around one finished draft hands it on. -/
theorem collapse_foldAll_singleton {format : Format} {inner : ParseTree} {draft : Draft}
    (finished : inner.fold (ofNode format source) = .node draft) :
    collapse (ParseTree.foldAll (ofNode format source) [inner]) = .node draft := by
  obtain ⟨entry, children⟩ := draft
  cases broken : entry.isError <;>
    simp [ParseTree.foldAll, collapse, finished, draft?, broken, Draft.append]

theorem fold_yaml_wrapper {kind : String} {inner : ParseTree} {draft : Draft}
    (wrapper : kind = "document" ∨ kind = "block_node" ∨ kind = "flow_node")
    (node : IsNode kind [inner] tree) (finished : inner.fold (ofNode .yaml source) = .node draft) :
    tree.fold (ofNode .yaml source) = .node draft := by
  have read := read_children collapse_heard .yaml source node
  rw [collapse_foldAll_singleton finished] at read
  rw [fold_named .yaml node, ← read]
  have kind_eq := node.kind_eq
  rcases wrapper with rfl | rfl | rfl <;> simp [ofNamed, Yaml.ofNamed, kind_eq]

theorem fold_jsonc_document {inner : ParseTree} {draft : Draft}
    (node : IsNode "document" [inner] tree)
    (finished : inner.fold (ofNode .jsonc source) = .node draft) :
    tree.fold (ofNode .jsonc source) = .node draft := by
  have read := read_children collapse_heard .jsonc source node
  rw [collapse_foldAll_singleton finished] at read
  rw [fold_named .jsonc node, ← read]
  simp [ofNamed, Jsonc.ofNamed, node.kind_eq]

/-- The wrapper of a value hands it on, whatever the style. -/
theorem fold_of_wraps (style : Style) {inner : ParseTree} {draft : Draft}
    (wraps : Wraps style inner tree)
    (finished : inner.fold (ofNode style.format source) = .node draft) :
    tree.fold (ofNode style.format source) = .node draft := by
  cases style with
  | jsonc =>
      rw [wraps]
      exact finished
  | flowYaml => exact fold_yaml_wrapper (.inr (.inr rfl)) wraps finished
  | blockYaml => exact fold_yaml_wrapper (.inr (.inl rfl)) wraps finished

/-- What stands behind a dash is the content of the item. -/
theorem fold_block_item {value : ParseTree} {draft : Draft}
    (node : IsNode "block_sequence_item" [value] tree)
    (finished : value.fold (ofNode .yaml source) = .node draft) :
    tree.fold (ofNode .yaml source) = .item (some draft) (tree.label.spanIn source) := by
  have read := read_children (findSome?_heard draft?_of_not_isHeard) .yaml source node
  have found : (ParseTree.foldAll (ofNode .yaml source) [value]).findSome?
      (fun child => child.result.draft?) = some draft := by
    simp [ParseTree.foldAll, finished, draft?]
  rw [found] at read
  rw [fold_named .yaml node, ← read]
  simp [ofNamed, Yaml.ofNamed, node.kind_eq]

/-- Trivia is never called a document. -/
theorem kind_ne_document_of_isTrivia (trivia : tree.isTrivia = true) :
    tree.label.kind ≠ "document" := by
  intro document
  cases named : tree.label.named <;> simp [ParseTree.isTrivia, document, named] at trivia

theorem filterMap_draft?_of_all_trivia {format : Format} {trees : List ParseTree}
    (trivia : trees.filter (fun tree => !tree.isTrivia) = []) :
    (ParseTree.foldAll (ofNode format source) trees).filterMap
      (fun child => child.result.draft?) = [] := by
  rw [← filterMap_heard draft?_of_not_isHeard, ← heard_foldAll, trivia]
  rfl

/-- Of a stream with one document among trivia, only the document has a draft. -/
theorem filterMap_draft?_keepFirstDocument {trees : List ParseTree} {document : ParseTree}
    (kind : document.label.kind = "document")
    (single : trees.filter (fun tree => !tree.isTrivia) = [document]) :
    (Yaml.keepFirstDocument (ParseTree.foldAll (ofNode .yaml source) trees)).filterMap
        (fun child => child.result.draft?) =
      (document.fold (ofNode .yaml source)).draft?.toList := by
  induction trees with
  | nil => cases single
  | cons tree rest ih =>
      rw [ParseTree.foldAll, Yaml.keepFirstDocument]
      cases trivia : tree.isTrivia with
      | true =>
          have other : (tree.label.kind == "document") = false :=
            beq_false_of_ne (kind_ne_document_of_isTrivia trivia)
          have silent := draft?_of_not_isHeard (isHeard_of_isTrivia .yaml source trivia)
          simp only [List.filter_cons, trivia, Bool.not_true, Bool.false_eq_true, if_false]
            at single
          rw [if_neg (by simp [other]), ← ih single]
          by_cases broken : (tree.label.kind == "ERROR") = true
          · rw [if_pos broken, List.filterMap_cons, silent]
          · rw [if_neg broken]
      | false =>
          simp only [List.filter_cons, trivia, Bool.not_false, if_true, List.cons.injEq] at single
          obtain ⟨rfl, none_left⟩ := single
          have rest_silent : ((ParseTree.foldAll (ofNode .yaml source) rest).filter
              fun later => later.kind == "ERROR").filterMap
              (fun child => child.result.draft?) = [] := by
            have all : (ParseTree.foldAll (ofNode .yaml source) rest).filterMap
                (fun child => child.result.draft?) = [] :=
              filterMap_draft?_of_all_trivia none_left
            rw [List.filterMap_eq_nil_iff] at all ⊢
            intro child member
            exact all child (List.mem_filter.mp member).1
          rw [if_pos (beq_iff_eq.mpr kind), List.filterMap_cons, rest_silent]
          cases (tree.fold (ofNode .yaml source)).draft? <;> rfl

theorem fold_stream {document : ParseTree} {draft : Draft}
    (node : IsNode "stream" [document] tree) (kind : document.label.kind = "document")
    (finished : document.fold (ofNode .yaml source) = .node draft) :
    tree.fold (ofNode .yaml source) = .node draft := by
  have kept : (Yaml.keepFirstDocument (ParseTree.foldAll (ofNode .yaml source)
      tree.children)).filterMap (fun child => child.result.draft?) = [draft] := by
    rw [filterMap_draft?_keepFirstDocument kind node.parts_eq, finished]
    rfl
  rw [fold_named .yaml node, ← collapse_foldAll_singleton finished]
  simp only [ofNamed, Yaml.ofNamed, node.kind_eq, collapse, kept]
  simp [ParseTree.foldAll, finished, draft?]

end Words

/-! ## Scalars -/

theorem textIn_of_spells {source text : List Char} {tree : ParseTree}
    (spells : Spells source tree text) : tree.label.textIn (.ofText source) = text := by
  have between : Text.slice? source tree.label.start tree.label.stop = some text :=
    Text.slice?_eq_some_iff.mpr spells
  simp only [ParseNode.textIn, Text.LineTable.ofText, between, Option.getD_some]

theorem unquote_quoted (quote : Char) (text : List Char) :
    Text.unquote quote (quote :: (text ++ [quote])) = text := by
  simp [Text.unquote]

/-- The type of a number is read off its text. -/
theorem numberType_text (scalar : Scalar) (number : scalar.type = .integer ∨ scalar.type = .float) :
    Jsonc.numberType scalar.text.toList = scalar.type := by
  rcases number with integer | float
  · have unmarked := scalar.unmarked_of_integer integer
    have none_marked : (scalar.text.toList.any fun char =>
        char == '.' || char == 'e' || char == 'E') = false := by
      rw [List.any_eq_false]
      intro char member
      simpa [or_assoc] using unmarked char member
    rw [Jsonc.numberType, none_marked, integer]
    rfl
  · obtain ⟨char, member, mark⟩ := scalar.marked_of_float float
    have marked : (scalar.text.toList.any fun char =>
        char == '.' || char == 'e' || char == 'E') = true := by
      rw [List.any_eq_true]
      exact ⟨char, member, by simpa [or_assoc] using mark⟩
    rw [Jsonc.numberType, marked, float]
    rfl

/-- The draft of a scalar read from a node. -/
theorem withoutPlaces_scalar (scalar : Scalar) (span : Span) (kind : String) :
    ((Draft.scalar (String.ofList scalar.text.toList) scalar.type span).withConcreteKind
        kind).withoutPlaces = (Datum.scalar scalar).toDraft .loose := by
  rw [String.ofList_toList]
  rfl

theorem fold_isJson {source : List Char} {scalar : Scalar} {tree : ParseTree}
    (isJson : scalar.IsJson tree) (spells : Spells source tree scalar.written) :
    tree.fold (ofNode .jsonc (.ofText source)) =
      .node ((Draft.scalar (String.ofList scalar.text.toList) scalar.type
        (tree.label.spanIn (.ofText source))).withConcreteKind tree.label.kind) := by
  obtain ⟨kind, listed, parts, node⟩ := isJson
  have text := textIn_of_spells spells
  have numeric := numberType_text scalar
  rw [fold_named .jsonc node]
  cases type : scalar.type <;>
    simp only [type, Scalar.written] at text numeric <;>
    simp only [type, Scalar.jsonKinds, List.mem_cons, List.not_mem_nil, or_false] at listed
  case string =>
    subst listed
    simp [ofNamed, Jsonc.ofNamed, node.kind_eq, text, unquote_quoted]
  case integer =>
    subst listed
    simp [ofNamed, Jsonc.ofNamed, node.kind_eq, text, numeric]
  case float =>
    subst listed
    simp [ofNamed, Jsonc.ofNamed, node.kind_eq, text, numeric]
  case boolean =>
    rcases listed with rfl | rfl <;> simp [ofNamed, Jsonc.ofNamed, node.kind_eq, text]
  case null =>
    subst listed
    simp [ofNamed, Jsonc.ofNamed, node.kind_eq, text]

/-- A token inside a plain scalar tells its type. -/
theorem fold_token {source : Text.LineTable} {parts : List ParseTree} {tree : ParseTree}
    {type : ScalarType} (node : IsNode (Scalar.tokenKind type) parts tree) :
    tree.fold (ofNode .yaml source) = .tag type := by
  have kind := node.kind_eq
  rw [fold_named .yaml node]
  cases type <;> simp only [Scalar.tokenKind] at kind <;> simp [ofNamed, Yaml.ofNamed, kind]

theorem fold_isYaml {source : List Char} {scalar : Scalar} {tree : ParseTree}
    (isYaml : scalar.IsYaml tree) (spells : Spells source tree scalar.written) :
    tree.fold (ofNode .yaml (.ofText source)) =
      .node ((Draft.scalar (String.ofList scalar.text.toList) scalar.type
        (tree.label.spanIn (.ofText source))).withConcreteKind tree.label.kind) := by
  have text := textIn_of_spells spells
  by_cases string : scalar.type = .string
  · simp only [Scalar.IsYaml, string] at isYaml
    simp only [Scalar.written, string] at text
    obtain ⟨parts, node⟩ := isYaml
    rw [fold_named .yaml node]
    simp [ofNamed, Yaml.ofNamed, Yaml.scalar, node.kind_eq, text, unquote_quoted, string]
  · have plain : ∃ token parts, IsNode "plain_scalar" [token] tree ∧
        IsNode (Scalar.tokenKind scalar.type) parts token := by
      cases type : scalar.type <;> simp_all [Scalar.IsYaml]
    have unquoted : scalar.written = scalar.text.toList := by
      cases type : scalar.type <;> simp_all [Scalar.written]
    obtain ⟨token, parts, node, typed⟩ := plain
    have read := read_children (findSome?_heard tag?_of_not_isHeard) .yaml (.ofText source) node
    have found : (ParseTree.foldAll (ofNode .yaml (.ofText source)) [token]).findSome?
        (fun child => child.result.tag?) = some scalar.type := by
      simp [ParseTree.foldAll, fold_token typed, tag?]
    rw [found] at read
    rw [fold_named .yaml node]
    simp [ofNamed, Yaml.ofNamed, Yaml.scalar, node.kind_eq, read, text, unquoted]

/-- A written scalar becomes the draft of the scalar. -/
theorem fold_writesScalar (style : Style) {source : List Char} {scalar : Scalar}
    {tree : ParseTree} (writes : WritesScalar style source scalar tree) :
    ∃ draft, tree.fold (ofNode style.format (.ofText source)) = .node draft ∧
      draft.withoutPlaces = (Datum.scalar scalar).toDraft .loose := by
  obtain ⟨inner, wraps, spells, token⟩ := writes
  refine ⟨(Draft.scalar (String.ofList scalar.text.toList) scalar.type
    (inner.label.spanIn (.ofText source))).withConcreteKind inner.label.kind, ?_,
    withoutPlaces_scalar _ _ _⟩
  rw [← Style.format_formOf style true]
  apply fold_of_wraps _ wraps
  rw [Style.format_formOf]
  cases style with
  | jsonc => exact fold_isJson token spells
  | flowYaml => exact fold_isYaml token spells
  | blockYaml => exact fold_isYaml token spells

/-! ## Items and entries -/

theorem itemsFrom_foldAll_cons (style : Style) {source : Text.LineTable} {value part : ParseTree}
    {draft : Draft} (holds : HoldsItem style value part)
    (finished : value.fold (ofNode style.format source) = .node draft)
    (clean : draft.entry.isError = false) (number : Nat) (later : List ParseTree) :
    itemsFrom number (ParseTree.foldAll (ofNode style.format source) (part :: later)) =
      draft.asItem number ::
        itemsFrom (number + 1) (ParseTree.foldAll (ofNode style.format source) later) := by
  cases style with
  | jsonc =>
      obtain rfl : part = value := holds
      simp [ParseTree.foldAll, itemsFrom, finished, clean]
  | flowYaml =>
      obtain rfl : part = value := holds
      simp [ParseTree.foldAll, itemsFrom, finished, clean]
  | blockYaml =>
      have item := fold_block_item holds finished
      simp only [Style.format] at item ⊢
      simp [ParseTree.foldAll, itemsFrom, item, itemContent]

/-- An entry with a key and a value is the value under the key. -/
theorem mappingChild?_pair (style : Style) {source : Text.LineTable}
    {part keyTree valueTree : ParseTree} {keyDraft valueDraft : Draft}
    (node : IsNode style.pairKind [keyTree, valueTree] part)
    (keyField : keyTree.label.field = some "key")
    (valueField : valueTree.label.field = some "value")
    (keyFinished : keyTree.fold (ofNode style.format source) = .node keyDraft)
    (valueFinished : valueTree.fold (ofNode style.format source) = .node valueDraft) :
    mappingChild? (part.fold (ofNode style.format source)) =
      some (valueDraft.asField (keyDraft.entry.value.getD "") (some keyDraft.entry.span)) := by
  rw [fold_pair style node]
  simp [ParseTree.foldAll, Pair.ofChildren, Pair.take, keyField, valueField, keyFinished,
    valueFinished, mappingChild?, Pair.toField]

mutual
/-- A written datum becomes the draft of the datum. -/
theorem fold_writes (style : Style) (source : List Char) : ∀ (datum : Datum) (tree : ParseTree),
    Writes style source datum tree →
      ∃ draft, tree.fold (ofNode style.format (.ofText source)) = .node draft ∧
        draft.withoutPlaces = datum.toDraft .loose
  | .scalar scalar, tree, writes => by
      rw [Writes] at writes
      exact fold_writesScalar style writes
  | .sequence items, tree, writes => by
      rw [Writes] at writes
      obtain ⟨inner, parts, wraps, node, written⟩ := writes
      have finished : tree.fold (ofNode _ (.ofText source)) = _ :=
        fold_of_wraps _ wraps (fold_sequence _ node)
      rw [Style.format_formOf] at finished
      refine ⟨_, finished, ?_⟩
      rw [sequence, Draft.withoutPlaces_node,
        itemsFrom_writesItems style source items parts 0 written]
      rfl
  | .mapping entries, tree, writes => by
      rw [Writes] at writes
      obtain ⟨inner, parts, wraps, node, written⟩ := writes
      have finished : tree.fold (ofNode _ (.ofText source)) = _ :=
        fold_of_wraps _ wraps (fold_mapping _ node)
      rw [Style.format_formOf] at finished
      refine ⟨_, finished, ?_⟩
      rw [mapping, Draft.withoutPlaces_node,
        filterMap_writesEntries style source entries parts written]
      rfl

theorem itemsFrom_writesItems (style : Style) (source : List Char) : ∀ (items : List Datum)
    (parts : List ParseTree) (number : Nat), WritesItems style source items parts →
      (itemsFrom number (ParseTree.foldAll (ofNode style.format (.ofText source)) parts)).map
        Draft.withoutPlaces = Datum.itemDrafts number items
  | [], parts, number, written => by
      rw [WritesItems] at written
      subst written
      rfl
  | first :: rest, parts, number, written => by
      rw [WritesItems] at written
      obtain ⟨part, value, later, rfl, holds, writes, writtenLater⟩ := written
      obtain ⟨draft, finished, same⟩ := fold_writes style source first value writes
      have clean : draft.entry.isError = false :=
        (Draft.isError_of_withoutPlaces same).trans (first.isError_toDraft .loose)
      rw [itemsFrom_foldAll_cons style holds finished clean, List.map_cons,
        Draft.withoutPlaces_asItem, same, Datum.asItem_toDraft,
        itemsFrom_writesItems style source rest later (number + 1) writtenLater, Datum.itemDrafts]

theorem filterMap_writesEntries (style : Style) (source : List Char) :
    ∀ (entries : List (String × Datum)) (parts : List ParseTree),
    WritesEntries style source entries parts →
      ((ParseTree.foldAll (ofNode style.format (.ofText source)) parts).filterMap
        (fun child => child.result.mappingChild?)).map Draft.withoutPlaces =
      Datum.entryDrafts entries
  | [], parts, written => by
      rw [WritesEntries] at written
      subst written
      rfl
  | (key, value) :: rest, parts, written => by
      rw [WritesEntries] at written
      obtain ⟨part, keyTree, valueTree, later, rfl, node, keyField, valueField, keyWritten,
        valueWritten, writtenLater⟩ := written
      obtain ⟨keyDraft, keyFinished, keySame⟩ := fold_writesScalar style keyWritten
      obtain ⟨draft, finished, same⟩ := fold_writes style source value valueTree valueWritten
      have name : keyDraft.entry.value = some key := Draft.value_of_withoutPlaces keySame
      have entry := mappingChild?_pair style node keyField valueField keyFinished finished
      rw [ParseTree.foldAll, List.filterMap_cons, entry, List.map_cons,
        Draft.withoutPlaces_asField, same, Datum.asField_toDraft, name,
        filterMap_writesEntries style source rest later writtenLater, Datum.entryDrafts]
      rfl
end

end Fragment

/-! ## The same tree in every style -/

/-- The draft of a document with a written datum. -/
theorem toDraft_of_writesDocument (style : Style) {source : List Char} {datum : Datum}
    {tree : ParseTree} (writes : WritesDocument style source datum tree) :
    (tree.toDraft style.format (.ofText source)).withoutPlaces = datum.toDocument := by
  have content : ∃ draft, tree.fold (Fragment.ofNode style.format (.ofText source)) =
      .node draft ∧ draft.withoutPlaces = datum.toDraft .loose := by
    rw [WritesDocument] at writes
    cases format : style.format with
    | jsonc =>
        rw [format] at writes
        obtain ⟨inner, document, written⟩ := writes
        obtain ⟨draft, finished, same⟩ := Fragment.fold_writes style source datum inner written
        rw [format] at finished
        exact ⟨draft, Fragment.fold_jsonc_document document finished, same⟩
    | yaml =>
        rw [format] at writes
        obtain ⟨document, inner, stream, holds, written⟩ := writes
        obtain ⟨draft, finished, same⟩ := Fragment.fold_writes style source datum inner written
        rw [format] at finished
        exact ⟨draft, Fragment.fold_stream stream holds.kind_eq
          (Fragment.fold_yaml_wrapper (.inl rfl) holds finished), same⟩
  obtain ⟨draft, finished, same⟩ := content
  rw [ParseTree.toDraft, ParseTree.traverse_eq_some_fold, Option.getD_some, finished,
    Fragment.toDocument, Draft.withoutPlaces_node, List.map_singleton, same]
  rfl

/-- The nodes of a document with a written datum. -/
theorem nodes_ofParse_of_writesDocument (style : Style) {source : String} {datum : Datum}
    {parse : Parse} (writes : WritesDocument style source.toList datum parse.tree) :
    (Tree.ofParse source style.format parse).nodes.map Node.withoutPlaces =
      datum.toDocument.number := by
  rw [Tree.ofParse, Tree.ofDraft, Draft.map_withoutPlaces_number,
    toDraft_of_writesDocument style writes]

/-- **A document says the same in every style**: the trees of two texts with one datum, each in a
style of its own, agree node for node on everything but places, and they are the datum under one
document node. -/
theorem tree_independent_of_style (datum : Datum) (left right : Style)
    (leftSource rightSource : String) (leftParse rightParse : Parse)
    (leftWrites : WritesDocument left leftSource.toList datum leftParse.tree)
    (rightWrites : WritesDocument right rightSource.toList datum rightParse.tree) :
    (Tree.ofParse leftSource left.format leftParse).nodes.map Node.withoutPlaces =
        (Tree.ofParse rightSource right.format rightParse).nodes.map Node.withoutPlaces ∧
      (Tree.ofParse leftSource left.format leftParse).nodes.map Node.withoutPlaces =
        datum.toDocument.number := by
  have leftNodes := nodes_ofParse_of_writesDocument left leftWrites
  have rightNodes := nodes_ofParse_of_writesDocument right rightWrites
  exact ⟨leftNodes.trans rightNodes.symm, leftNodes⟩

/-! ### Two entries and two items, in three styles -/

namespace ThreeStyles

open ParseTree (sound punctuation)

def one : Scalar where
  type := .integer
  text := "1"
  marked_of_float := fun float => by cases float
  unmarked_of_integer := fun _ => by simp

def two : Scalar where
  type := .integer
  text := "2"
  marked_of_float := fun float => by cases float
  unmarked_of_integer := fun _ => by simp

def datum : Datum :=
  .mapping [("a", .sequence [.scalar one, .scalar two]), ("b", .scalar (.ofText "x"))]

/-- A string of YAML. -/
def string (field : String) (start : Nat) : ParseTree :=
  sound "flow_node" (some field) start (start + 3)
    [sound "double_quote_scalar" none start (start + 3) []]

/-- A number of YAML. -/
def digit (start : Nat) : ParseTree :=
  sound "flow_node" none start (start + 1)
    [sound "plain_scalar" none start (start + 1) [sound "integer_scalar" none start (start + 1) []]]

section Scalars

variable {style : Style} {source : List Char} {start : Nat}

theorem writes_string {text field : String} (yaml : style.format = .yaml)
    (spelled : Text.slice? source start (start + 3) = some (Scalar.ofText text).written) :
    WritesScalar style source (.ofText text) (string field start) := by
  have spells := Text.slice?_eq_some_iff.mp spelled
  cases style with
  | jsonc => cases yaml
  | flowYaml => exact ⟨_, isNode_sound rfl, spells, [], isNode_sound rfl⟩
  | blockYaml => exact ⟨_, isNode_sound rfl, spells, [], isNode_sound rfl⟩

theorem writes_digit {scalar : Scalar} (yaml : style.format = .yaml)
    (integer : scalar.type = .integer)
    (spelled : Text.slice? source start (start + 1) = some scalar.written) :
    WritesScalar style source scalar (digit start) := by
  have spells := Text.slice?_eq_some_iff.mp spelled
  have isYaml : scalar.IsYaml (sound "plain_scalar" none start (start + 1)
      [sound "integer_scalar" none start (start + 1) []]) := by
    rw [Scalar.IsYaml, integer]
    exact ⟨_, [], isNode_sound rfl, isNode_sound rfl⟩
  cases style with
  | jsonc => cases yaml
  | flowYaml => exact ⟨_, isNode_sound rfl, spells, isYaml⟩
  | blockYaml => exact ⟨_, isNode_sound rfl, spells, isYaml⟩

theorem writes_leaf {scalar : Scalar} {kind : String} {field : Option String} {stop : Nat}
    (listed : kind ∈ Scalar.jsonKinds scalar.type)
    (spelled : Text.slice? source start stop = some scalar.written) :
    WritesScalar .jsonc source scalar (sound kind field start stop []) :=
  ⟨_, rfl, Text.slice?_eq_some_iff.mp spelled, kind, listed, [], isNode_sound rfl⟩

end Scalars

/-- One line, which is JSON as well as flow YAML. -/
def line : String := "\x7b\"a\": [1, 2], \"b\": \"x\"\x7d"

def jsonItems : ParseTree :=
  sound "array" (some "value") 6 12
    [punctuation "[" 6, sound "number" none 7 8 [], punctuation "," 8,
      sound "number" none 10 11 [], punctuation "]" 11]

def json : ParseTree :=
  sound "document" none 0 23 [sound "object" none 0 23
    [punctuation "\x7b" 0,
      sound "pair" none 1 12 [sound "string" (some "key") 1 4 [], punctuation ":" 4, jsonItems],
      punctuation "," 12,
      sound "pair" none 14 22 [sound "string" (some "key") 14 17 [], punctuation ":" 17,
        sound "string" (some "value") 19 22 []],
      punctuation "\x7d" 22]]

theorem writes_json : WritesDocument .jsonc line.toList datum json := by
  have items : Writes .jsonc line.toList (.sequence [.scalar one, .scalar two]) jsonItems := by
    refine ⟨_, _, rfl, isNode_sound rfl, ?_⟩
    refine ⟨_, _, _, rfl, rfl, writes_leaf (by decide) (by decide), ?_⟩
    exact ⟨_, _, _, rfl, rfl, writes_leaf (by decide) (by decide), rfl⟩
  refine ⟨_, isNode_sound rfl, _, _, rfl, isNode_sound rfl, ?_⟩
  refine ⟨_, _, _, _, rfl, isNode_sound rfl, rfl, rfl, writes_leaf (by decide) (by decide), items,
    ?_⟩
  exact ⟨_, _, _, _, rfl, isNode_sound rfl, rfl, rfl, writes_leaf (by decide) (by decide),
    writes_leaf (by decide) (by decide), rfl⟩

def flowItems : ParseTree :=
  sound "flow_node" (some "value") 6 12 [sound "flow_sequence" none 6 12
    [punctuation "[" 6, digit 7, punctuation "," 8, digit 10, punctuation "]" 11]]

def flow : ParseTree :=
  sound "stream" none 0 23 [sound "document" none 0 23 [sound "flow_node" none 0 23
    [sound "flow_mapping" none 0 23
      [punctuation "\x7b" 0,
        sound "flow_pair" none 1 12 [string "key" 1, punctuation ":" 4, flowItems],
        punctuation "," 12,
        sound "flow_pair" none 14 22 [string "key" 14, punctuation ":" 17, string "value" 19],
        punctuation "\x7d" 22]]]]

theorem writes_flow : WritesDocument .flowYaml line.toList datum flow := by
  have items : Writes .flowYaml line.toList (.sequence [.scalar one, .scalar two]) flowItems := by
    refine ⟨_, _, isNode_sound rfl, isNode_sound rfl, ?_⟩
    refine ⟨_, _, _, rfl, rfl, writes_digit rfl rfl (by decide), ?_⟩
    exact ⟨_, _, _, rfl, rfl, writes_digit rfl rfl (by decide), rfl⟩
  refine ⟨_, _, isNode_sound rfl, isNode_sound rfl, _, _, isNode_sound rfl, isNode_sound rfl, ?_⟩
  refine ⟨_, _, _, _, rfl, isNode_sound rfl, rfl, rfl, writes_string rfl (by decide), items, ?_⟩
  exact ⟨_, _, _, _, rfl, isNode_sound rfl, rfl, rfl, writes_string rfl (by decide),
    writes_string rfl (by decide), rfl⟩

/-- A block with a comment in it. -/
def lines : String := "\"a\":\n- 1\n- 2 # two\n\"b\": \"x\""

def blockItems : ParseTree :=
  sound "block_node" (some "value") 5 12 [sound "block_sequence" none 5 12
    [sound "block_sequence_item" none 5 8 [punctuation "-" 5, digit 7],
      sound "block_sequence_item" none 9 12 [punctuation "-" 9, digit 11]]]

def block : ParseTree :=
  sound "stream" none 0 27 [sound "document" none 0 27 [sound "block_node" none 0 27
    [sound "block_mapping" none 0 27
      [sound "block_mapping_pair" none 0 12 [string "key" 0, punctuation ":" 3, blockItems],
        sound "comment" none 13 18 [],
        sound "block_mapping_pair" none 19 27
          [string "key" 19, punctuation ":" 22, string "value" 24]]]]]

theorem writes_block : WritesDocument .blockYaml lines.toList datum block := by
  have items :
      Writes .blockYaml lines.toList (.sequence [.scalar one, .scalar two]) blockItems := by
    refine ⟨_, _, isNode_sound rfl, isNode_sound rfl, ?_⟩
    refine ⟨_, _, _, rfl, isNode_sound rfl, writes_digit rfl rfl (by decide), ?_⟩
    exact ⟨_, _, _, rfl, isNode_sound rfl, writes_digit rfl rfl (by decide), rfl⟩
  refine ⟨_, _, isNode_sound rfl, isNode_sound rfl, _, _, isNode_sound rfl, isNode_sound rfl, ?_⟩
  refine ⟨_, _, _, _, rfl, isNode_sound rfl, rfl, rfl, writes_string rfl (by decide), items, ?_⟩
  exact ⟨_, _, _, _, rfl, isNode_sound rfl, rfl, rfl, writes_string rfl (by decide),
    writes_string rfl (by decide), rfl⟩

/-- The six nodes of the datum come out of each style, in one order and with the same roles. -/
theorem tree_independent_of_style_threeStyles :
    datum.toDocument.number.map (fun node => (node.parent, node.role)) =
        #[(none, .loose), (some 0, .loose), (some 1, .field "a"), (some 2, .item 0),
          (some 2, .item 1), (some 1, .field "b")] ∧
      (Tree.ofParse line .jsonc ⟨json, false⟩).nodes.map Node.withoutPlaces =
        (Tree.ofParse line .yaml ⟨flow, false⟩).nodes.map Node.withoutPlaces ∧
      (Tree.ofParse line .yaml ⟨flow, false⟩).nodes.map Node.withoutPlaces =
        (Tree.ofParse lines .yaml ⟨block, false⟩).nodes.map Node.withoutPlaces ∧
      (Tree.ofParse line .yaml ⟨flow, false⟩).nodes.map Node.withoutPlaces =
        datum.toDocument.number := by
  obtain ⟨jsonFlow, -⟩ := tree_independent_of_style datum .jsonc .flowYaml line line
    ⟨json, false⟩ ⟨flow, false⟩ writes_json writes_flow
  obtain ⟨flowBlock, flowDatum⟩ := tree_independent_of_style datum .flowYaml .blockYaml line lines
    ⟨flow, false⟩ ⟨block, false⟩ writes_flow writes_block
  exact ⟨by decide +kernel, jsonFlow, flowBlock, flowDatum⟩

end ThreeStyles

end Blueprint
