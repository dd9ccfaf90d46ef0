import Blueprint.Element.Load
import Blueprint.Proofs.Json.Restoring

/-!
# Elements are restored

Every element that is loaded from JSON is loaded again from its written form
(`Element.restores`).

The readers follow the types. Path items, substitutions and texts come first; a substitution may
hold others as arguments of a call, so it is followed down by size (`Substitution.restores`). Free
content holds content in the same way (`Content.restores`). Then come the records, field by field,
and last the elements, tag by tag.
-/

set_option autoImplicit false

namespace Blueprint

open Json

/-! ## Readers that call themselves -/

theorem mapM_attach {Item Result : Type} {items : List Item}
    {inside : {item // item ∈ items} → Option Result} {read : Item → Option Result}
    (same : ∀ item, inside item = read item.1) : items.attach.mapM inside = items.mapM read := by
  rw [funext same, ← Function.comp_def read Subtype.val, ← List.mapM_map,
    List.attach_map_subtype_val]

theorem FunctionArg.load_eq (json : Json) : load json =
    if json.isRecord 2 then do
      let name ← json.optional 0 "name" text?
      let value ← json.required 1 "value" Substitution.load
      return .mk name value
    else none := by
  rw [load]
  cases json.isRecord 2 <;> rfl

theorem Substitution.load_eq (json : Json) : load json =
    match json.variant? with
    | none => none
    | some (tag, none) => if tag == "elemIndex" then some elemIndexRef else none
    | some (tag, some content) =>
      if tag == "function" && content.isObject then do
        let name ← content.required 0 "name" text?
        let arguments ← content.withDefault 1 "args" (list? FunctionArg.load) []
        return functionCall name arguments
      else loadFlat tag content := by
  rw [load]
  split
  · rename_i absent
    rw [Option.attach_eq_none_iff.mp absent]
  · rename_i bare _
    rw [bare]
  · rename_i content tagged _
    rw [tagged]
    dsimp only
    congr 2
    funext name
    rw [withDefault]
    split
    · rename_i absent
      rw [Option.attach_eq_none_iff.mp absent]
    · rename_i items found _
      rw [found]
      dsimp only
      rw [list?]
      congr 1
      refine mapM_attach fun item => ?_
      rw [FunctionArg.load_eq, required]
      congr 2
      funext name
      split
      · rename_i absent
        rw [Option.attach_eq_none_iff.mp absent]
        rfl
      · rename_i value here _
        rw [here]
        rfl
    · rename_i part other _
      obtain ⟨part, found⟩ := part
      rw [found]
      cases part with
      | array items => exact absurd rfl (other items found)
      | null | bool _ | integer _ | decimal _ | string _ | object _ => rfl

theorem Content.load_eq (json : Json) : load json =
    match json.variant? with
    | some (tag, some content) =>
      if tag == "scalar" then some (scalar content.canonical)
      else if tag == "substitutions" then (TemplateText.load content).map substitutions
      else if tag == "fields" then (content.map? load).map fields
      else if tag == "items" then (content.list? load).map items
      else none
    | _ => none := by
  rw [load]
  split
  · rename_i tag content tagged _
    conv => rhs; rw [tagged]
    dsimp only
    congr 2
    cases content with
    | object members =>
        dsimp only [list?, map?]
        rw [Option.map_none, ite_self, Option.map_eq_bind]
        congr 2
        exact mapM_attach fun _ => rfl
    | array values =>
        dsimp only [list?, map?]
        rw [Option.map_none, Option.map_eq_bind]
        by_cases isFields : (tag == "fields") = true
        · rw [beq_iff_eq.mp isFields]
          rfl
        · rw [if_neg isFields]
          congr 2
          exact mapM_attach fun _ => rfl
    | null | bool _ | integer _ | decimal _ | string _ => simp [map?, list?]
  · rename_i other
    split
    · rename_i tag content tagged
      exact (other tag content tagged (by simp [tagged])).elim
    · rfl

/-! ## Substitutions -/

theorem PathItem.restores : Restores load write := by
  refine fun json => restoredAt_of_ne_null (fun item => ?_) fun loaded => ?_
  · cases item <;> simp [write]
  · rw [load] at loaded
    split at loaded
    · obtain ⟨name, readName, rfl⟩ := Option.map_eq_some_iff.mp loaded
      exact congrArg (Option.map field) ((restores_text _).again readName)
    · obtain ⟨number, readNumber, rfl⟩ := Option.map_eq_some_iff.mp loaded
      exact congrArg (Option.map index) ((restores_int64 _).again readNumber)
    · cases loaded

theorem FunctionArg.restoredAt {json : Json}
    (below : RestoredBelow Substitution.load Substitution.write json) :
    RestoredAt load write json := by
  refine restoredAt_of_ne_null (fun argument => ?_) fun loaded => ?_
  · cases argument
    simp [write]
  · rw [load, guarded_eq_some_iff] at loaded ⊢
    simp only [Option.bind_eq_bind, Option.bind_eq_some_iff] at loaded ⊢
    obtain ⟨-, name, hasName, value, hasValue, same⟩ := loaded
    cases same
    exact ⟨rfl, name, restores_text.below.optional hasName rfl (by simp [write]),
      value, below.required hasValue (by simp [write]), rfl⟩

namespace Substitution

theorem writeArguments_eq_map (arguments : List FunctionArg) :
    writeArguments arguments = arguments.map FunctionArg.write := by
  induction arguments with
  | nil => rfl
  | cons argument rest ih => rw [writeArguments, ih, List.map_cons]

theorem load_tagged {tag : String} (content : Json) (flat : (tag == "function") = false) :
    load (.object [(tag, content)]) = loadFlat tag content := by
  simp [load_eq, flat]

/-- A substitution that holds no other is loaded again. -/
theorem again_of_loadFlat {tag : String} {content : Json} {value : Substitution}
    (loaded : loadFlat tag content = some value) : load value.write = some value := by
  have texts : RestoredBelow text? Json.string content := restores_text.below
  have numbers : RestoredBelow int64? Json.integer content := restores_int64.below
  have paths : RestoredBelow (list? PathItem.load) PathItem.writeAll content :=
    PathItem.restores.below.lists
  unfold loadFlat at loaded
  -- One case for each tag: first the literals and the index of an element, then the references,
  -- whose fields are read one by one.
  split at loaded
  · obtain ⟨text, readText, rfl⟩ := Option.map_eq_some_iff.mp loaded
    rw [write, load_tagged _ rfl]
    exact congrArg (Option.map stringLiteral) ((restores_text content).again readText)
  · obtain ⟨number, readNumber, rfl⟩ := Option.map_eq_some_iff.mp loaded
    rw [write, load_tagged _ rfl]
    exact congrArg (Option.map intLiteral) ((restores_int64 content).again readNumber)
  · obtain ⟨number, readNumber, rfl⟩ := Option.map_eq_some_iff.mp loaded
    rw [write, load_tagged _ rfl]
    exact congrArg (Option.map floatLiteral) ((restores_decimal content).again readNumber)
  · obtain ⟨truth, readTruth, rfl⟩ := Option.map_eq_some_iff.mp loaded
    rw [write, load_tagged _ rfl]
    exact congrArg (Option.map boolLiteral) ((restores_bool content).again readTruth)
  · split at loaded
    · cases loaded
      rw [write, load_eq]
      rfl
    · cases loaded
  · rw [guarded_eq_some_iff] at loaded
    simp only [Option.bind_eq_bind, Option.bind_eq_some_iff] at loaded
    obtain ⟨-, name, hasName, same⟩ := loaded
    cases same
    rw [write, load_tagged _ rfl, loadFlat, guarded_eq_some_iff]
    simp only [Option.bind_eq_bind, Option.bind_eq_some_iff]
    exact ⟨rfl, name, texts.required hasName (by simp), rfl⟩
  · rw [guarded_eq_some_iff] at loaded
    simp only [Option.bind_eq_bind, Option.bind_eq_some_iff] at loaded
    obtain ⟨-, name, hasName, path, hasPath, same⟩ := loaded
    cases same
    rw [write, load_tagged _ rfl, loadFlat, guarded_eq_some_iff]
    simp only [Option.bind_eq_bind, Option.bind_eq_some_iff]
    exact ⟨rfl, name, texts.required hasName (by simp),
      path, paths.withDefault rfl hasPath (.inl (by simp)), rfl⟩
  · rw [guarded_eq_some_iff] at loaded
    simp only [Option.bind_eq_bind, Option.bind_eq_some_iff] at loaded
    obtain ⟨-, name, hasName, index, hasIndex, path, hasPath, same⟩ := loaded
    cases same
    rw [write, load_tagged _ rfl, loadFlat, guarded_eq_some_iff]
    simp only [Option.bind_eq_bind, Option.bind_eq_some_iff]
    exact ⟨rfl, name, texts.required hasName (by simp),
      index, numbers.optionalOrEnd hasIndex (.inl (by simp)),
      path, paths.withDefault rfl hasPath (.inl (by simp)), rfl⟩
  · rw [guarded_eq_some_iff] at loaded
    simp only [Option.bind_eq_bind, Option.bind_eq_some_iff] at loaded
    obtain ⟨-, name, hasName, fieldName, hasFieldName, index, hasIndex, same⟩ := loaded
    cases same
    rw [write, load_tagged _ rfl, loadFlat, guarded_eq_some_iff]
    simp only [Option.bind_eq_bind, Option.bind_eq_some_iff]
    exact ⟨rfl, name, texts.required hasName (by simp),
      fieldName, texts.required hasFieldName (by simp),
      index, numbers.optionalOrEnd hasIndex (.inl (by simp)), rfl⟩
  · rw [guarded_eq_some_iff] at loaded
    simp only [Option.bind_eq_bind, Option.bind_eq_some_iff] at loaded
    obtain ⟨-, name, hasName, path, hasPath, same⟩ := loaded
    cases same
    rw [write, load_tagged _ rfl, loadFlat, guarded_eq_some_iff]
    simp only [Option.bind_eq_bind, Option.bind_eq_some_iff]
    exact ⟨rfl, name, texts.required hasName (by simp),
      path, paths.withDefault rfl hasPath (.inl (by simp)), rfl⟩
  · rw [guarded_eq_some_iff] at loaded
    simp only [Option.bind_eq_bind, Option.bind_eq_some_iff] at loaded
    obtain ⟨-, path, hasPath, same⟩ := loaded
    cases same
    rw [write, load_tagged _ rfl, loadFlat, guarded_eq_some_iff]
    simp only [Option.bind_eq_bind, Option.bind_eq_some_iff]
    exact ⟨rfl, path, paths.withDefault rfl hasPath (.inl (by simp)), rfl⟩
  · cases loaded

theorem restores : Restores load write := by
  refine .of_step fun json below => restoredAt_of_ne_null (fun value => ?_) fun loaded => ?_
  · cases value <;> simp [write]
  · rw [load_eq] at loaded
    split at loaded
    · cases loaded
    · obtain ⟨-, same⟩ := Option.ite_none_right_eq_some.mp loaded
      cases same
      rw [write, load_eq]
      rfl
    · rename_i content tagged
      split at loaded
      · simp only [Option.bind_eq_bind, Option.bind_eq_some_iff] at loaded
        obtain ⟨name, hasName, arguments, hasArguments, same⟩ := loaded
        cases same
        have arguable : RestoredBelow FunctionArg.load FunctionArg.write content :=
          fun part less => FunctionArg.restoredAt
            (below.mono (Nat.lt_trans less (sizeOf_lt_of_variant? tagged)))
        rw [write, load_eq, variant?_object_singleton]
        dsimp only
        rw [if_pos (by rfl)]
        simp only [Option.bind_eq_bind, Option.bind_eq_some_iff]
        exact ⟨name, restores_text.below.required hasName (by simp),
          arguments, arguable.lists.withDefault rfl hasArguments
            (.inl (by simp [writeArguments_eq_map])), rfl⟩
      · exact again_of_loadFlat loaded

end Substitution

theorem FunctionArg.restores : Restores load write :=
  fun _ => restoredAt Substitution.restores.below

/-! ## Texts and free content -/

theorem TextPiece.restores : Restores load write := by
  refine fun json => restoredAt_of_ne_null (fun piece => ?_) fun loaded => ?_
  · cases piece <;> simp [write]
  · rw [load] at loaded
    split at loaded
    · obtain ⟨text, readText, rfl⟩ := Option.map_eq_some_iff.mp loaded
      exact congrArg (Option.map string) ((restores_text _).again readText)
    · obtain ⟨value, readValue, rfl⟩ := Option.map_eq_some_iff.mp loaded
      exact congrArg (Option.map substitution) ((Substitution.restores _).again readValue)
    · cases loaded

theorem TemplateText.restores : Restores load write := by
  refine fun json => restoredAt_of_ne_null (by simp [write]) fun loaded => ?_
  rw [load, guarded_eq_some_iff] at loaded ⊢
  simp only [Option.bind_eq_bind, Option.bind_eq_some_iff] at loaded ⊢
  obtain ⟨-, pieces, hasPieces, same⟩ := loaded
  cases same
  exact ⟨rfl, pieces, TextPiece.restores.below.lists.required hasPieces (by simp [write]), rfl⟩

namespace Content

theorem writeItems_eq_map (items : List Content) : writeItems items = items.map write := by
  induction items with
  | nil => rfl
  | cons item rest ih => rw [writeItems, ih, List.map_cons]

theorem writeMembers_eq_map (members : List (String × Content)) :
    writeMembers members = members.map fun member => (member.1, write member.2) := by
  induction members with
  | nil => rfl
  | cons member rest ih => rw [writeMembers, ih, List.map_cons]

theorem restores : Restores load write := by
  refine .of_step fun json below => restoredAt_of_ne_null (fun content => ?_) fun loaded => ?_
  · cases content <;> simp [write]
  · rw [load_eq] at loaded
    split at loaded
    · rename_i content tagged
      have inner : RestoredBelow load write content := below.mono (sizeOf_lt_of_variant? tagged)
      split at loaded
      · cases loaded
        rw [write, load_eq]
        exact congrArg (Option.map scalar) ((restores_canonical content).again rfl)
      split at loaded
      · obtain ⟨text, readText, rfl⟩ := Option.map_eq_some_iff.mp loaded
        rw [write, load_eq]
        exact congrArg (Option.map substitutions) ((TemplateText.restores content).again readText)
      split at loaded
      · obtain ⟨members, readMembers, rfl⟩ := Option.map_eq_some_iff.mp loaded
        rw [write, load_eq, writeMembers_eq_map]
        exact congrArg (Option.map fields) (inner.map.again readMembers)
      split at loaded
      · obtain ⟨values, readValues, rfl⟩ := Option.map_eq_some_iff.mp loaded
        rw [write, load_eq, writeItems_eq_map]
        exact congrArg (Option.map items) (inner.list.again readValues)
      · cases loaded
    · cases loaded

end Content

/-! ## Named elements and their parts -/

theorem BlueprintInfo.restores : Restores load write := by
  refine fun json => restoredAt_of_ne_null (by simp [write]) fun loaded => ?_
  have texts : RestoredBelow text? Json.string json := restores_text.below
  rw [load, guarded_eq_some_iff] at loaded ⊢
  simp only [Option.bind_eq_bind, Option.bind_eq_some_iff] at loaded ⊢
  obtain ⟨-, version, hasVersion, names, hasNames, same⟩ := loaded
  cases same
  exact ⟨rfl, version, texts.optional hasVersion rfl (by simp [write]),
    names, texts.lists.withDefault rfl hasNames (found_or_empty (by simp [write])), rfl⟩

theorem VariableInfo.restores : Restores load write := by
  refine fun json => restoredAt_of_ne_null (by simp [write]) fun loaded => ?_
  have texts : RestoredBelow text? Json.string json := restores_text.below
  have values : RestoredBelow (fun value => some value.canonical) id json :=
    restores_canonical.below
  rw [load, guarded_eq_some_iff] at loaded ⊢
  simp only [Option.bind_eq_bind, Option.bind_eq_some_iff] at loaded ⊢
  obtain ⟨-, name, hasName, type, hasType, description, hasDescription,
    isSecret, hasIsSecret, defaultValue, hasDefaultValue,
    allowedValues, hasAllowedValues, same⟩ := loaded
  cases same
  exact ⟨rfl, name, texts.required hasName (by simp [write]),
    type, texts.optional hasType rfl (by simp [write]),
    description, texts.optional hasDescription rfl (by simp [write]),
    isSecret, restores_bool.below.withDefault rfl hasIsSecret (.inl (by simp [write])),
    defaultValue, values.optional hasDefaultValue rfl (by simp [write]),
    allowedValues, values.lists.withDefault rfl hasAllowedValues
      (found_or_empty (by simp [write])), rfl⟩

theorem ValueInfo.restores : Restores load write := by
  refine fun json => restoredAt_of_ne_null (by simp [write]) fun loaded => ?_
  have texts : RestoredBelow text? Json.string json := restores_text.below
  rw [load, guarded_eq_some_iff] at loaded ⊢
  simp only [Option.bind_eq_bind, Option.bind_eq_some_iff] at loaded ⊢
  obtain ⟨-, name, hasName, type, hasType,
    description, hasDescription, isSecret, hasIsSecret, same⟩ := loaded
  cases same
  exact ⟨rfl, name, texts.required hasName (by simp [write]),
    type, texts.optional hasType rfl (by simp [write]),
    description, texts.optional hasDescription rfl (by simp [write]),
    isSecret, restores_bool.below.withDefault rfl hasIsSecret (.inl (by simp [write])), rfl⟩

theorem IncludeInfo.restores : Restores load write := by
  refine fun json => restoredAt_of_ne_null (by simp [write]) fun loaded => ?_
  have texts : RestoredBelow text? Json.string json := restores_text.below
  rw [load, guarded_eq_some_iff] at loaded ⊢
  simp only [Option.bind_eq_bind, Option.bind_eq_some_iff] at loaded ⊢
  obtain ⟨-, name, hasName, path, hasPath, description, hasDescription, same⟩ := loaded
  cases same
  exact ⟨rfl, name, texts.required hasName (by simp [write]),
    path, TemplateText.restores.below.optional hasPath rfl (by simp [write]),
    description, texts.optional hasDescription rfl (by simp [write]), rfl⟩

theorem ResourceInfo.restores : Restores load write := by
  refine fun json => restoredAt_of_ne_null (by simp [write]) fun loaded => ?_
  have texts : RestoredBelow text? Json.string json := restores_text.below
  rw [load, guarded_eq_some_iff] at loaded ⊢
  simp only [Option.bind_eq_bind, Option.bind_eq_some_iff] at loaded ⊢
  obtain ⟨-, name, hasName, type, hasType,
    description, hasDescription, dependsOn, hasDependsOn, same⟩ := loaded
  cases same
  exact ⟨rfl, name, texts.required hasName (by simp [write]),
    type, texts.optional hasType rfl (by simp [write]),
    description, texts.optional hasDescription rfl (by simp [write]),
    dependsOn, texts.lists.withDefault rfl hasDependsOn
      (found_or_empty (by simp [write])), rfl⟩

theorem DataSourceInfo.restores : Restores load write := by
  refine fun json => restoredAt_of_ne_null (by simp [write]) fun loaded => ?_
  have texts : RestoredBelow text? Json.string json := restores_text.below
  rw [load, guarded_eq_some_iff] at loaded ⊢
  simp only [Option.bind_eq_bind, Option.bind_eq_some_iff] at loaded ⊢
  obtain ⟨-, name, hasName, type, hasType, description, hasDescription, same⟩ := loaded
  cases same
  exact ⟨rfl, name, texts.required hasName (by simp [write]),
    type, texts.optional hasType rfl (by simp [write]),
    description, texts.optional hasDescription rfl (by simp [write]), rfl⟩

theorem ExportInfo.restores : Restores load write := by
  refine fun json => restoredAt_of_ne_null (by simp [write]) fun loaded => ?_
  have texts : RestoredBelow text? Json.string json := restores_text.below
  rw [load, guarded_eq_some_iff] at loaded ⊢
  simp only [Option.bind_eq_bind, Option.bind_eq_some_iff] at loaded ⊢
  obtain ⟨-, name, hasName, type, hasType,
    field, hasField, description, hasDescription, same⟩ := loaded
  cases same
  exact ⟨rfl, name, texts.required hasName (by simp [write]),
    type, texts.optional hasType rfl (by simp [write]),
    field, texts.optional hasField rfl (by simp [write]),
    description, texts.optional hasDescription rfl (by simp [write]), rfl⟩

theorem ResourceMetadata.restores : Restores load write := by
  refine fun json => restoredAt_of_ne_null (by simp [write]) fun loaded => ?_
  have texts : RestoredBelow text? Json.string json := restores_text.below
  have templates : RestoredBelow TemplateText.load TemplateText.write json :=
    TemplateText.restores.below
  rw [load, guarded_eq_some_iff] at loaded ⊢
  simp only [Option.bind_eq_bind, Option.bind_eq_some_iff] at loaded ⊢
  obtain ⟨-, displayName, hasDisplayName, labels, hasLabels,
    annotations, hasAnnotations, custom, hasCustom, same⟩ := loaded
  cases same
  exact ⟨rfl, displayName, templates.optional hasDisplayName rfl (by simp [write]),
    labels, texts.maps.withDefault rfl hasLabels
      (found_or_empty (by simp [write])),
    annotations, templates.maps.withDefault rfl hasAnnotations
      (found_or_empty (by simp [write])),
    custom, Content.restores.below.optional hasCustom rfl (by simp [write]), rfl⟩

theorem LinkSelector.restores : Restores load write := by
  refine fun json => restoredAt_of_ne_null (by simp [write]) fun loaded => ?_
  have texts : RestoredBelow text? Json.string json := restores_text.below
  rw [load, guarded_eq_some_iff] at loaded ⊢
  simp only [Option.bind_eq_bind, Option.bind_eq_some_iff] at loaded ⊢
  obtain ⟨-, byLabel, hasByLabel, exclude, hasExclude, same⟩ := loaded
  cases same
  exact ⟨rfl, byLabel, texts.maps.withDefault rfl hasByLabel
      (found_or_empty (by simp [write])),
    exclude, texts.lists.withDefault rfl hasExclude
      (found_or_empty (by simp [write])), rfl⟩

theorem DataSourceFilter.restores : Restores load write := by
  refine fun json => restoredAt_of_ne_null (by simp [write]) fun loaded => ?_
  have texts : RestoredBelow text? Json.string json := restores_text.below
  rw [load, guarded_eq_some_iff] at loaded ⊢
  simp only [Option.bind_eq_bind, Option.bind_eq_some_iff] at loaded ⊢
  obtain ⟨-, field, hasField, operator, hasOperator, search, hasSearch, same⟩ := loaded
  cases same
  exact ⟨rfl, field, texts.optional hasField rfl (by simp [write]),
    operator, texts.optional hasOperator rfl (by simp [write]),
    search, TemplateText.restores.below.optional hasSearch rfl (by simp [write]), rfl⟩

theorem DataSourceExport.restores : Restores load write := by
  refine fun json => restoredAt_of_ne_null (by simp [write]) fun loaded => ?_
  have texts : RestoredBelow text? Json.string json := restores_text.below
  rw [load, guarded_eq_some_iff] at loaded ⊢
  simp only [Option.bind_eq_bind, Option.bind_eq_some_iff] at loaded ⊢
  obtain ⟨-, name, hasName, type, hasType,
    aliasFor, hasAliasFor, description, hasDescription, same⟩ := loaded
  cases same
  exact ⟨rfl, name, texts.required hasName (by simp [write]),
    type, texts.optional hasType rfl (by simp [write]),
    aliasFor, texts.optional hasAliasFor rfl (by simp [write]),
    description, texts.optional hasDescription rfl (by simp [write]), rfl⟩

/-! ## Elements -/

namespace Element

/-- An element is loaded again from its tag and value. -/
def Again (element : Element) : Prop :=
  ofTag element.tagAndValue.1 element.tagAndValue.2 = some element

theorem again_of_carried {Carried : Type} {read : Json → Option Carried} {write : Carried → Json}
    {make : Carried → Element} {tag : String} {value : Option Json} {element : Element}
    (restores : Restores read write) (loaded : (value.bind read).map make = some element)
    (written : ∀ carried, (make carried).tagAndValue = (tag, some (write carried)))
    (reads : ∀ json, ofTag tag (some json) = (read json).map make) : Again element := by
  obtain ⟨carried, readValue, rfl⟩ := Option.map_eq_some_iff.mp loaded
  obtain ⟨json, rfl, readJson⟩ := Option.bind_eq_some_iff.mp readValue
  rw [Again, written, reads, (restores json).again readJson, Option.map_some]

theorem again_of_bare {bareElement element : Element} {value : Option Json}
    (loaded : bareElement.bare value = some element) (again : Again bareElement) :
    Again element := by
  unfold bare at loaded
  split at loaded <;> cases loaded <;> exact again

theorem again_of_ofTag {tag : String} {value : Option Json} {element : Element}
    (loaded : ofTag tag value = some element) : Again element := by
  unfold ofTag at loaded
  -- One case for each tag, and last the tags that are not known.
  split at loaded
  · exact again_of_carried BlueprintInfo.restores loaded (fun _ => rfl) fun _ => rfl
  · exact again_of_carried restores_text loaded (fun _ => rfl) fun _ => rfl
  · exact again_of_carried restores_text.list loaded (fun _ => rfl) fun _ => rfl
  · exact again_of_bare loaded rfl
  · exact again_of_bare loaded rfl
  · exact again_of_bare loaded rfl
  · exact again_of_bare loaded rfl
  · exact again_of_bare loaded rfl
  · exact again_of_bare loaded rfl
  · exact again_of_carried Content.restores loaded (fun _ => rfl) fun _ => rfl
  · exact again_of_carried VariableInfo.restores loaded (fun _ => rfl) fun _ => rfl
  · exact again_of_carried ValueInfo.restores loaded (fun _ => rfl) fun _ => rfl
  · exact again_of_carried IncludeInfo.restores loaded (fun _ => rfl) fun _ => rfl
  · exact again_of_carried ResourceInfo.restores loaded (fun _ => rfl) fun _ => rfl
  · exact again_of_carried DataSourceInfo.restores loaded (fun _ => rfl) fun _ => rfl
  · exact again_of_carried ExportInfo.restores loaded (fun _ => rfl) fun _ => rfl
  · exact again_of_carried restores_text loaded (fun _ => rfl) fun _ => rfl
  · exact again_of_carried restores_text loaded (fun _ => rfl) fun _ => rfl
  · exact again_of_carried restores_text loaded (fun _ => rfl) fun _ => rfl
  · exact again_of_carried restores_text loaded (fun _ => rfl) fun _ => rfl
  · exact again_of_carried restores_text loaded (fun _ => rfl) fun _ => rfl
  · exact again_of_carried restores_text loaded (fun _ => rfl) fun _ => rfl
  · exact again_of_carried TemplateText.restores loaded (fun _ => rfl) fun _ => rfl
  · exact again_of_carried TemplateText.restores loaded (fun _ => rfl) fun _ => rfl
  · exact again_of_carried Substitution.restores loaded (fun _ => rfl) fun _ => rfl
  · exact again_of_carried FunctionArg.restores loaded (fun _ => rfl) fun _ => rfl
  · exact again_of_carried ResourceMetadata.restores loaded (fun _ => rfl) fun _ => rfl
  · exact again_of_carried LinkSelector.restores loaded (fun _ => rfl) fun _ => rfl
  · exact again_of_carried restores_text.list loaded (fun _ => rfl) fun _ => rfl
  · exact again_of_carried Content.restores loaded (fun _ => rfl) fun _ => rfl
  · exact again_of_carried TemplateText.restores loaded (fun _ => rfl) fun _ => rfl
  · exact again_of_carried DataSourceFilter.restores loaded (fun _ => rfl) fun _ => rfl
  · exact again_of_carried restores_text loaded (fun _ => rfl) fun _ => rfl
  · exact again_of_carried TemplateText.restores loaded (fun _ => rfl) fun _ => rfl
  · exact again_of_bare loaded rfl
  · exact again_of_carried DataSourceExport.restores loaded (fun _ => rfl) fun _ => rfl
  · exact again_of_carried Content.restores loaded (fun _ => rfl) fun _ => rfl
  · exact again_of_carried restores_text.map loaded (fun _ => rfl) fun _ => rfl
  · exact again_of_carried TemplateText.restores.map loaded (fun _ => rfl) fun _ => rfl
  · exact again_of_carried Content.restores loaded (fun _ => rfl) fun _ => rfl
  · exact again_of_bare loaded rfl

theorem load_write (element : Element) :
    load element.write = ofTag element.tagAndValue.1 element.tagAndValue.2 := by
  simp [write, load, bareVariant?, variant?]

/-- An element is restored from whatever form it is loaded. -/
theorem restores : Restores load write := by
  refine fun json => restoredAt_of_ne_null (by simp [write]) fun loaded => ?_
  rw [load_write]
  unfold load at loaded
  split at loaded
  · obtain ⟨tag, -, loaded⟩ := Option.bind_eq_some_iff.mp loaded
    exact again_of_ofTag loaded
  · obtain ⟨tag, -, loaded⟩ := Option.bind_eq_some_iff.mp loaded
    exact again_of_ofTag loaded
  · cases loaded

end Element

end Blueprint
