import Blueprint.Element.Write
import Blueprint.Json.Record

/-!
# Reading what was written

A value can be read from JSON in several forms: a record from an object or from an array, its
fields given, null or left out, its members in any order and among others. It is written in one
form. A reader restores what it reads at a place (`RestoredAt`) when it reads the same again from
the written form.

Readers of lists, maps and fields restore what they read as soon as the readers of their parts do.
A part is smaller than the whole, so the parts are those of smaller size (`RestoredBelow`), and a
reader that calls itself on parts can be followed down.

Values that are carried as they are get their members in the canonical order, which changes
nothing the second time (`canonical_canonical`).
-/

set_option autoImplicit false

namespace Blueprint

theorem Decimal.normal_shorten (mantissa : Int) (count : Nat) :
    (shorten mantissa count).normal = shorten mantissa count := by
  fun_induction shorten mantissa count with
  | case1 => rfl
  | case2 mantissa count divides ih => exact ih
  | case3 mantissa count divides => rw [normal, shorten, if_neg divides]

namespace Json

variable {Value : Type}

/-! ## Members in order -/

/-- Members in the strict order of their names. -/
def InOrder (members : List (String × Value)) : Prop :=
  (members.map Prod.fst).Pairwise (· < ·)

theorem inOrder_cons {member : String × Value} {members : List (String × Value)} :
    InOrder (member :: members) ↔
      (∀ other ∈ members, member.1 < other.1) ∧ InOrder members := by
  simp [InOrder]

theorem InOrder.insertMember {members : List (String × Value)} (ordered : InOrder members)
    (member : String × Value) : InOrder (insertMember member members) := by
  induction members with
  | nil => exact List.pairwise_singleton _ _
  | cons first rest ih =>
      obtain ⟨below, later⟩ := inOrder_cons.mp ordered
      rw [Json.insertMember]
      split
      · rename_i less
        refine inOrder_cons.mpr ⟨fun other found => ?_, ordered⟩
        rcases List.mem_cons.mp found with rfl | found
        · exact less
        · exact String.lt_trans less (below other found)
      · rename_i notLess
        split
        · rename_i same
          rw [beq_iff_eq] at same
          exact inOrder_cons.mpr ⟨fun other found => same ▸ below other found, later⟩
        · rename_i different
          rw [beq_iff_eq] at different
          have greater := Std.lt_of_le_of_ne (String.not_lt.mp notLess) (Ne.symm different)
          refine inOrder_cons.mpr ⟨fun other found => ?_, ih later⟩
          rcases mem_of_mem_insertMember found with rfl | found
          · exact greater
          · exact below other found

/-- Members are put in order. -/
theorem inOrder_sortMembers (members : List (String × Value)) : InOrder (sortMembers members) := by
  have ordered : ∀ (later sorted : List (String × Value)), InOrder sorted →
      InOrder (later.foldl (fun sorted member => Json.insertMember member sorted) sorted) := by
    intro later
    induction later with
    | nil => exact fun _ sorted => sorted
    | cons member rest ih => exact fun sorted inOrder => ih _ (inOrder.insertMember member)
  exact ordered members [] List.Pairwise.nil

/-- A member whose name comes last is put at the end. -/
theorem insertMember_of_last {members : List (String × Value)} {member : String × Value}
    (last : ∀ other ∈ members, other.1 < member.1) :
    insertMember member members = members ++ [member] := by
  induction members with
  | nil => rfl
  | cons first rest ih =>
      have less := last first List.mem_cons_self
      have different : member.1 ≠ first.1 := fun same => String.lt_irrefl _ (same ▸ less)
      rw [insertMember, if_neg fun greater => String.lt_irrefl _ (String.lt_trans greater less),
        if_neg (by simpa using different),
        ih fun other later => last other (List.mem_cons_of_mem _ later), List.cons_append]

/-- Members that are in order stay as they are. -/
theorem sortMembers_of_inOrder {members : List (String × Value)} (ordered : InOrder members) :
    sortMembers members = members := by
  have appended : ∀ (later sorted : List (String × Value)), InOrder (sorted ++ later) →
      later.foldl (fun sorted member => Json.insertMember member sorted) sorted =
        sorted ++ later := by
    intro later
    induction later with
    | nil => simp
    | cons member rest ih =>
        intro sorted inOrder
        have last : ∀ other ∈ sorted, other.1 < member.1 := by
          rw [InOrder, List.map_append, List.pairwise_append] at inOrder
          exact fun other found => inOrder.2.2 _ (List.mem_map_of_mem found) _ List.mem_cons_self
        rw [List.foldl_cons, insertMember_of_last last, ih, List.append_assoc,
          List.singleton_append]
        rwa [List.append_assoc, List.singleton_append]
  exact appended members [] ordered

/-! ## The canonical form -/

theorem canonicalMembers_of_forall {members : List (String × Json)}
    (each : ∀ member ∈ members, canonical member.2 = member.2) :
    canonicalMembers members = members := by
  induction members with
  | nil => rfl
  | cons member rest ih =>
      rw [canonicalMembers, each member List.mem_cons_self,
        ih fun other later => each other (List.mem_cons_of_mem _ later)]

theorem canonicalItems_of_forall {items : List Json}
    (each : ∀ item ∈ items, canonical item = item) :
    canonicalItems items = items := by
  induction items with
  | nil => rfl
  | cons item rest ih =>
      rw [canonicalItems, each item List.mem_cons_self,
        ih fun other later => each other (List.mem_cons_of_mem _ later)]

mutual
/-- The canonical form of a value is its own canonical form. -/
theorem canonical_canonical : ∀ json : Json, json.canonical.canonical = json.canonical
  | array items => by
      rw [canonical, canonical, canonicalItems_of_forall (canonical_of_mem_items items)]
  | object members => by
      have each : ∀ member ∈ sortMembers (canonicalMembers members),
          canonical member.2 = member.2 := fun member found =>
        canonical_of_mem_members members member (mem_of_mem_sortMembers found)
      rw [canonical, canonical, canonicalMembers_of_forall each,
        sortMembers_of_inOrder (inOrder_sortMembers _)]
  | null => rfl
  | bool _ => rfl
  | integer _ => rfl
  | decimal _ => rfl
  | string _ => rfl

theorem canonical_of_mem_items : ∀ (items : List Json), ∀ item ∈ canonicalItems items,
    canonical item = item
  | [], _, found => by cases found
  | first :: rest, item, found => by
      rcases List.mem_cons.mp found with rfl | later
      · exact canonical_canonical first
      · exact canonical_of_mem_items rest item later

theorem canonical_of_mem_members : ∀ (members : List (String × Json)),
    ∀ member ∈ canonicalMembers members, canonical member.2 = member.2
  | [], _, found => by cases found
  | (_, value) :: rest, member, found => by
      rcases List.mem_cons.mp found with rfl | later
      · exact canonical_canonical value
      · exact canonical_of_mem_members rest member later
end

theorem eq_null_of_canonical {json : Json} (null : json.canonical = null) : json = .null := by
  cases json with
  | null => rfl
  | bool _ | integer _ | decimal _ | string _ | array _ | object _ => cases null

/-! ## The members of a written object -/

section Members

variable (name key : String) (value : Json) (write : Value → Json)

@[simp] theorem lastMember?_append (front back : List (String × Json)) :
    lastMember? name (front ++ back) = (lastMember? name back).or (lastMember? name front) := by
  simp [lastMember?, List.find?_append, Option.map_or]

@[simp] theorem lastMember?_nil : lastMember? name [] = none := rfl

@[simp] theorem lastMember?_cons (rest : List (String × Json)) :
    lastMember? name ((key, value) :: rest) =
      (lastMember? name rest).or (if key == name then some value else none) := by
  rw [← List.singleton_append, lastMember?_append]
  congr 1
  simp only [lastMember?, List.reverse_singleton, List.find?_cons, List.find?_nil]
  cases key == name <;> rfl

@[simp] theorem lastMember?_optionalMember (content : Option Value) :
    lastMember? name (optionalMember key write content) =
      if key == name then content.map write else none := by
  cases content with
  | none => simp [optionalMember, lastMember?_nil]
  | some content => simp [optionalMember, lastMember?_cons, lastMember?_nil]

@[simp] theorem lastMember?_listMember (values : List Value) :
    lastMember? name (listMember key write values) =
      if key == name && !values.isEmpty then some (array (values.map write)) else none := by
  cases values with
  | nil => simp [listMember, lastMember?_nil]
  | cons first rest => simp [listMember, lastMember?_cons, lastMember?_nil]

@[simp] theorem lastMember?_mapMember (entries : List (String × Value)) :
    lastMember? name (mapMember key write entries) =
      if key == name && !entries.isEmpty then some (ofEntries write entries) else none := by
  cases entries with
  | nil => simp [mapMember, lastMember?_nil]
  | cons first rest => simp [mapMember, lastMember?_cons, lastMember?_nil]

end Members

@[simp] theorem variant?_object_singleton (name : String) (content : Json) :
    (object [(name, content)]).variant? = some (name, some content) := rfl

/-! ## Restoring -/

/-- A reader restores what it reads at a value: from the written form it reads the same again. What
is not null is not written as null. -/
structure RestoredAt (read : Json → Option Value) (write : Value → Json) (json : Json) : Prop where
  again : ∀ {value : Value}, read json = some value → read (write value) = some value
  solid : ∀ {value : Value}, read json = some value → write value = null → json = null

/-- A reader restores what it reads, wherever that is. -/
def Restores (read : Json → Option Value) (write : Value → Json) : Prop :=
  ∀ json : Json, RestoredAt read write json

/-- A reader restores what it reads at every value that is smaller than a given one. -/
def RestoredBelow (read : Json → Option Value) (write : Value → Json) (json : Json) : Prop :=
  ∀ part : Json, sizeOf part < sizeOf json → RestoredAt read write part

variable {read : Json → Option Value} {write : Value → Json} {json : Json}

theorem Restores.below (restores : Restores read write) : RestoredBelow read write json :=
  fun part _ => restores part

theorem RestoredBelow.mono {part : Json} (below : RestoredBelow read write json)
    (less : sizeOf part < sizeOf json) : RestoredBelow read write part :=
  fun inner lesser => below inner (Nat.lt_trans lesser less)

/-- A reader restores what it reads if it does so at each value below which it does. -/
theorem Restores.of_step
    (step : ∀ json, RestoredBelow read write json → RestoredAt read write json) :
    Restores read write := by
  intro json
  induction size : sizeOf json using Nat.strongRecOn generalizing json with
  | ind _ ih => exact step json fun part less => ih _ (size ▸ less) part rfl

theorem restoredAt_of_ne_null (never : ∀ value, write value ≠ null)
    (again : ∀ {value}, read json = some value → read (write value) = some value) :
    RestoredAt read write json :=
  ⟨again, fun _ null => absurd null (never _)⟩

theorem restores_text : Restores text? string :=
  fun _ => restoredAt_of_ne_null (by simp) fun _ => rfl

theorem restores_bool : Restores bool? bool :=
  fun _ => restoredAt_of_ne_null (by simp) fun _ => rfl

theorem restores_canonical : Restores (fun value => some value.canonical) id := by
  refine fun json => ⟨fun loaded => ?_, fun loaded null => ?_⟩
  · cases loaded
    rw [id_eq, canonical_canonical]
  · cases loaded
    exact eq_null_of_canonical null

theorem restores_int64 : Restores int64? integer := by
  refine fun json => restoredAt_of_ne_null (by simp) fun loaded => ?_
  cases json with
  | integer value =>
      obtain ⟨_, same⟩ := Option.ite_none_right_eq_some.mp loaded
      cases same
      exact loaded
  | null | bool _ | decimal _ | string _ | array _ | object _ => cases loaded

theorem restores_nat32 : Restores nat32? fun number => integer number := by
  refine fun json => restoredAt_of_ne_null (by simp) fun loaded => ?_
  cases json with
  | integer value =>
      obtain ⟨range, same⟩ := Option.ite_none_right_eq_some.mp loaded
      cases same
      rw [Bool.and_eq_true, decide_eq_true_eq] at range
      rw [Int.toNat_of_nonneg range.1]
      exact loaded
  | null | bool _ | decimal _ | string _ | array _ | object _ => cases loaded

theorem restores_decimal : Restores decimal? decimal := by
  refine fun json => restoredAt_of_ne_null (by simp) fun loaded => ?_
  cases json with
  | integer value =>
      cases loaded
      rfl
  | decimal value =>
      cases loaded
      exact congrArg some (Decimal.normal_shorten _ _)
  | null | bool _ | string _ | array _ | object _ => cases loaded

/-! ## Lists and maps -/

theorem mapM_again {Item Result : Type} {read : Item → Option Result} {write : Result → Item}
    {items : List Item} {results : List Result} (loaded : items.mapM read = some results)
    (each : ∀ item ∈ items, ∀ result, read item = some result →
      read (write result) = some result) :
    (results.map write).mapM read = some results := by
  induction items generalizing results with
  | nil =>
      cases loaded
      rfl
  | cons item rest ih =>
      rw [List.mapM_cons] at loaded
      obtain ⟨first, readFirst, loaded⟩ := Option.bind_eq_some_iff.mp loaded
      obtain ⟨others, readOthers, same⟩ := Option.bind_eq_some_iff.mp loaded
      cases same
      rw [List.map_cons, List.mapM_cons, each item List.mem_cons_self first readFirst,
        ih readOthers fun other later => each other (List.mem_cons_of_mem _ later)]
      rfl

theorem map_of_mapM {Item Result Label : Type} {read : Item → Option Result} {items : List Item}
    {results : List Result} {before : Item → Label} {after : Result → Label}
    (loaded : items.mapM read = some results)
    (kept : ∀ item result, read item = some result → after result = before item) :
    results.map after = items.map before := by
  induction items generalizing results with
  | nil =>
      cases loaded
      rfl
  | cons item rest ih =>
      rw [List.mapM_cons] at loaded
      obtain ⟨first, readFirst, loaded⟩ := Option.bind_eq_some_iff.mp loaded
      obtain ⟨others, readOthers, same⟩ := Option.bind_eq_some_iff.mp loaded
      cases same
      rw [List.map_cons, List.map_cons, kept item first readFirst, ih readOthers]

theorem RestoredBelow.list (below : RestoredBelow read write json) :
    RestoredAt (list? read) (fun values => array (values.map write)) json := by
  refine restoredAt_of_ne_null (by simp) fun loaded => ?_
  cases json with
  | array items =>
      exact mapM_again loaded fun item found _ readItem =>
        (below item (sizeOf_lt_of_mem_items found)).again readItem
  | null | bool _ | integer _ | decimal _ | string _ | object _ => cases loaded

theorem Restores.list (restores : Restores read write) :
    Restores (list? read) fun values => array (values.map write) :=
  fun _ => restores.below.list

theorem RestoredBelow.lists (below : RestoredBelow read write json) :
    RestoredBelow (list? read) (fun values => array (values.map write)) json :=
  fun _ less => (below.mono less).list

theorem RestoredBelow.map (below : RestoredBelow read write json) :
    RestoredAt (map? read) (ofEntries write) json := by
  refine restoredAt_of_ne_null (by simp [ofEntries]) fun {entries} loaded => ?_
  cases json with
  | object members =>
      have readEach : ∀ (member : String × Json) (entry : String × Value),
          (do let value ← read member.2; return (member.1, value)) = some entry →
            read member.2 = some entry.2 ∧ entry.1 = member.1 := by
        intro member entry loaded
        obtain ⟨value, readValue, same⟩ := Option.bind_eq_some_iff.mp loaded
        cases same
        exact ⟨readValue, rfl⟩
      -- The entries have the names of the members in order, so writing them changes no order.
      have names : entries.map Prod.fst = (sortMembers members).map Prod.fst :=
        map_of_mapM loaded fun member entry loaded => (readEach member entry loaded).2
      have ordered : InOrder (entries.map fun entry => (entry.1, write entry.2)) := by
        have sorted := inOrder_sortMembers members
        rw [InOrder, ← names] at sorted
        simpa [InOrder, Function.comp_def] using sorted
      rw [ofEntries, map?, sortMembers_of_inOrder ordered]
      refine mapM_again loaded fun member found entry loaded => ?_
      have less : sizeOf member.2 < sizeOf (object members) :=
        @sizeOf_lt_of_mem_members member.1 _ _ (mem_of_mem_sortMembers found)
      rw [(below _ less).again (readEach member entry loaded).1]
      rfl
  | null | bool _ | integer _ | decimal _ | string _ | array _ => cases loaded

theorem Restores.map (restores : Restores read write) : Restores (map? read) (ofEntries write) :=
  fun _ => restores.below.map

theorem RestoredBelow.maps (below : RestoredBelow read write json) :
    RestoredBelow (map? read) (ofEntries write) json :=
  fun _ less => (below.mono less).map

/-! ## Fields of records -/

/-- A reading that begins with a test reads something only if the test holds. -/
theorem guarded_eq_some_iff {condition : Bool} {rest : Option Value} {value : Value} :
    ((guard (condition = true) : Option Unit) >>= fun _ => rest) = some value ↔
      condition = true ∧ rest = some value := by
  cases condition with
  | false => exact ⟨fun read => (by cases read), fun holds => absurd holds.1 Bool.false_ne_true⟩
  | true => exact ⟨fun read => ⟨rfl, read⟩, fun holds => holds.2⟩

@[simp] theorem fieldAt?_object (members : List (String × Json)) (place : Nat) (name : String) :
    (object members).fieldAt? place name = lastMember? name members := rfl

section Fields

variable {written : Json} {place : Nat} {name : String}

theorem RestoredBelow.required (below : RestoredBelow read write json) {value : Value}
    (loaded : json.required place name read = some value)
    (found : written.fieldAt? place name = some (write value)) :
    written.required place name read = some value := by
  obtain ⟨part, located, readPart⟩ := Option.bind_eq_some_iff.mp loaded
  rw [Json.required, found]
  exact (below part (sizeOf_lt_of_fieldAt? located)).again readPart

/-- A value that may be null, given or left out, is written in its place or not at all. -/
theorem RestoredAt.nullable {part : Json} (restored : RestoredAt read write part) :
    RestoredAt (nullable read) (orNull write) part where
  again {value} loaded := by
    cases value with
    | none => rfl
    | some value =>
        have readPart : read part = some value ∧ part ≠ null := by
          cases part with
          | null => cases loaded
          | bool _ | integer _ | decimal _ | string _ | array _ | object _ =>
              obtain ⟨_, readPart, same⟩ := Option.map_eq_some_iff.mp loaded
              cases same
              exact ⟨readPart, by rintro ⟨⟩⟩
        have solid : write value ≠ null := fun null =>
          readPart.2 (restored.solid readPart.1 null)
        have again := restored.again readPart.1
        rw [orNull]
        cases form : write value with
        | null => exact absurd form solid
        | bool _ | integer _ | decimal _ | string _ | array _ | object _ =>
            rw [form] at again
            exact congrArg (Option.map some) again
  solid {value} loaded null := by
    cases part with
    | null => rfl
    | bool _ | integer _ | decimal _ | string _ | array _ | object _ =>
        obtain ⟨_, readPart, same⟩ := Option.map_eq_some_iff.mp loaded
        cases same
        exact restored.solid readPart null

theorem RestoredBelow.withDefault (below : RestoredBelow read write json) {value otherwise : Value}
    (fallback : read (write otherwise) = some otherwise)
    (loaded : json.withDefault place name read otherwise = some value)
    (found : written.fieldAt? place name = some (write value) ∨
      written.fieldAt? place name = none ∧ value = otherwise) :
    written.withDefault place name read otherwise = some value := by
  have again : read (write value) = some value := by
    rw [Json.withDefault] at loaded
    cases located : json.fieldAt? place name with
    | none =>
        rw [located] at loaded
        cases loaded
        exact fallback
    | some part =>
        rw [located] at loaded
        exact (below part (sizeOf_lt_of_fieldAt? located)).again loaded
  rcases found with found | ⟨missing, rfl⟩
  · rw [Json.withDefault, found]
    exact again
  · rw [Json.withDefault, missing]

/-- A collection that is left out when it is empty. -/
theorem found_or_empty {Item : Type} {items : List Item} {found : Option Json} {form : Json}
    (is : found = if items.isEmpty then none else some form) :
    found = some form ∨ found = none ∧ items = [] := by
  cases items with
  | nil => exact .inr ⟨is, rfl⟩
  | cons first rest => exact .inl is

theorem RestoredBelow.optionalOrEnd (below : RestoredBelow read write json) {value : Option Value}
    (loaded : json.optionalOrEnd place name read = some value)
    (found : written.fieldAt? place name = some (orNull write value) ∨
      written.fieldAt? place name = value.map write) :
    written.optionalOrEnd place name read = some value := by
  have parts : RestoredBelow (Json.nullable read) (orNull write) json := fun part less =>
    (below part less).nullable
  refine parts.withDefault rfl loaded ?_
  cases value with
  | none => exact found.imp_right fun missing => ⟨missing, rfl⟩
  | some value => exact .inl (found.elim id id)

theorem RestoredBelow.optional (below : RestoredBelow read write json) {value : Option Value}
    (loaded : json.optional place name read = some value) (isObject : written.isObject = true)
    (found : written.fieldAt? place name = value.map write) :
    written.optional place name read = some value := by
  rw [Json.optional, found]
  cases value with
  | none => rw [Option.map_none]; exact if_pos isObject
  | some value =>
      rw [Json.optional] at loaded
      cases located : json.fieldAt? place name with
      | none =>
          rw [located] at loaded
          have absent := (Option.ite_none_right_eq_some.mp loaded).2
          cases absent
      | some part =>
          rw [located] at loaded
          exact (below part (sizeOf_lt_of_fieldAt? located)).nullable.again loaded

end Fields

end Json

end Blueprint
