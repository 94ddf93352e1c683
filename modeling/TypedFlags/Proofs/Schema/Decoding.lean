import TypedFlags.Proofs.Schema.Storage
import TypedFlags.Proofs.Json.Outline
import TypedFlags.Proofs.Json.Record
/-!
# Decoding as records

Every part of a stored type set but the list of types itself is decoded as a record: first the values of
its fields are picked, and then something is made of these values and of nothing else
(`ObjectType.ofJson?_eq`, `Property.ofJson?_eq`, `PropertyType.ofJson?_eq_some_iff`,
`TypeDecl.ofJson?_eq`). What a property holds is a record of two fields, its kind and the one field of
that kind.

From this follows what decoding cannot see: what the outline leaves out (`TypeSet.ofJson?_part`). And
what it cannot do: **a type set takes no more levels of JSON when it is stored than the document took
that it was decoded from** (`TypeSet.depth_of_ofJson?`).
-/

set_option autoImplicit false

namespace TypedFlags.Schema

/-! ## Values of fields -/

/-- The properties in a list of records. -/
def Property.listOfJson? (numbered : Bool) : Json → Option (List Property)
  | .array items => items.mapM (Property.ofJson? numbered)
  | _ => none

/-- The object type that the values of its fields make. -/
def ObjectType.ofValues? (numbered : Bool) : List Json → Option ObjectType
  | [properties, isArray] => do
    let properties ← Property.listOfJson? numbered properties
    some ⟨properties, ← isArray.bool?⟩
  | _ => none

theorem ObjectType.ofJson?_eq (numbered : Bool) (v : Json) :
    ofJson? numbered v =
      (v.required? ["properties", "isArray"]).bind (ofValues? numbered) := by
  rw [ObjectType.ofJson?]
  split
  · next items isArray h =>
    rw [h, Option.bind_some, ofValues?, Property.listOfJson?,
      List.mapM_subtype (g := Property.ofJson? numbered) (fun _ _ => rfl), List.unattach_attach]
  · next hne =>
    cases h : v.required? ["properties", "isArray"] with
    | none => rfl
    | some values =>
      rw [Option.bind_some, ofValues?.eq_def]
      split
      · next properties isArray =>
        cases properties <;> first | rfl | exact absurd h (hne _ _)
      · rfl

/-- The property that the values of its fields make. -/
def Property.ofValues? (numbered : Bool) : List Json → Option Property
  | [name, isOptional, isArray, type] => do
    let type ← PropertyType.ofJson? numbered type
    some ⟨← name.string?, ← isOptional.bool?, ← isArray.bool?, type⟩
  | _ => none

theorem Property.ofJson?_eq (numbered : Bool) (v : Json) :
    ofJson? numbered v =
      (v.required? ["propertyName", "isOptional", "isArray", "propertyType"]).bind
        (ofValues? numbered) := by
  rw [Property.ofJson?]
  split
  · next h => rw [h, Option.bind_some, ofValues?]
  · next hne =>
    cases h : v.required? ["propertyName", "isOptional", "isArray", "propertyType"] with
    | none => rfl
    | some values =>
      rw [Option.bind_some, ofValues?.eq_def]
      split
      · exact absurd h (hne _ _ _ _)
      · rfl

/-- The one field of each kind of what a property holds. -/
def PropertyType.field (kind : String) : String :=
  if kind = "identifier" then "name" else kind

/-- What a property holds that is of a kind, by the value of the kind's field. -/
def PropertyType.ofValue? (kind : String) (value : Json) : Option PropertyType :=
  match kind with
  | "primitive" => (Primitive.ofJson? value).map .primitive
  | "identifier" => value.string?.map .reference
  | "object" => (ObjectType.ofJson? true value).map .object
  | _ => none

/-- What a property holds is made of the two fields of a record. Which one is the second, the first
    says. -/
theorem PropertyType.ofJson?_eq_some_iff {numbered : Bool} {v : Json} {t : PropertyType} :
    ofJson? numbered v = some t ↔ ∃ kind k value, k.kind? kinds numbered = some kind ∧
      v.required? ["kind", field kind] = some [k, value] ∧ ofValue? kind value = some t := by
  have hrecord : ofJson? numbered v = some t ↔ ∃ kind record value,
      v.kinded? kinds numbered = some (kind, record) ∧
        record.required? [field kind] = some [value] ∧ ofValue? kind value = some t := by
    rw [PropertyType.ofJson?]
    split
    · next record h =>
      rcases hr : record.required? ["primitive"] with _ | _ | ⟨value, _ | ⟨w, values⟩⟩ <;>
        simp [h, hr, field, ofValue?, Option.bind_eq_some_iff]
    · next record h =>
      rcases hr : record.required? ["name"] with _ | _ | ⟨value, _ | ⟨w, values⟩⟩ <;>
        simp [h, hr, field, ofValue?, Option.bind_eq_some_iff]
    · next record h =>
      split
      · next type hr => simp [h, hr, field, ofValue?, Option.bind_eq_some_iff]
      · next hne =>
        have hnone : ∀ value, record.required? ["object"] ≠ some [value] := hne
        simp [h, field, hnone]
    · next hprimitive hidentifier hobject =>
      simp only [reduceCtorEq, false_iff]
      rintro ⟨kind, record, value, hk, -, hvalue⟩
      unfold ofValue? at hvalue
      split at hvalue
      · exact hprimitive _ hk
      · exact hidentifier _ hk
      · exact hobject _ hk
      · cases hvalue
  rw [hrecord]
  constructor
  · rintro ⟨kind, record, value, hk, hr, hvalue⟩
    obtain ⟨k, hkind, hfields⟩ := Json.kinded?_iff.1 ⟨record, hk, hr⟩
    exact ⟨kind, k, value, hkind, hfields, hvalue⟩
  · rintro ⟨kind, k, value, hkind, hfields, hvalue⟩
    obtain ⟨record, hk, hr⟩ := Json.kinded?_iff.2 ⟨k, hkind, hfields⟩
    exact ⟨kind, record, value, hk, hr, hvalue⟩

/-- The type that the values of its fields make. -/
def TypeDecl.ofValues? : List Json → Option TypeDecl
  | [name, body] => do some ⟨← name.string?, ← ObjectType.ofJson? false body⟩
  | _ => none

theorem TypeDecl.ofJson?_eq (v : Json) :
    ofJson? v = (v.fields? [.optional "name" (.string ""), .required "object"]).bind ofValues? := by
  rfl

/-! ## Levels -/

theorem depth_of_value? {field : Json.Field} (hf : ∀ a ∈ field.absent, a.depth = 0)
    {members : List (String × Json)} {v : Json} (h : field.value? members = some v) :
    v.depth < (Json.object members).depth := by
  unfold Json.Field.value? at h
  split at h
  · rw [hf v h]
    exact Nat.succ_pos _
  · next name w hfilter =>
    cases h
    have hm : (name, v) ∈ members :=
      List.mem_of_mem_filter (hfilter ▸ List.mem_singleton_self (name, v))
    exact Json.depth_entry_lt rfl hm
  · cases h

theorem depth_of_inOrder? {fields : List Json.Field} (hf : ∀ f ∈ fields, ∀ a ∈ f.absent, a.depth = 0)
    {items values : List Json} (h : Json.Field.inOrder? fields items = some values) :
    ∀ v ∈ values, v.depth ≤ Json.depthItems items := by
  fun_induction Json.Field.inOrder? fields items generalizing values with
  | case1 =>
    cases h
    exact List.forall_mem_nil _
  | case2 => cases h
  | case3 field fields ih =>
    rw [List.forall_mem_cons] at hf
    simp only [bind, pure, Option.bind_eq_some_iff] at h
    obtain ⟨a, ha, values, hvalues, he⟩ := h
    cases he
    exact List.forall_mem_cons.2 ⟨Nat.le_of_eq (hf.1 a ha), ih hf.2 hvalues⟩
  | case4 field fields value items ih =>
    rw [List.forall_mem_cons] at hf
    obtain ⟨values, hvalues, rfl⟩ := Option.map_eq_some_iff.1 h
    refine List.forall_mem_cons.2 ⟨Nat.le_max_left _ _, fun v hv => ?_⟩
    exact Nat.le_trans (ih hf.2 hvalues v hv) (Nat.le_max_right _ _)

/-- What stands in a field is less deep than its record. -/
theorem depth_of_fields? {fields : List Json.Field} (hf : ∀ f ∈ fields, ∀ a ∈ f.absent, a.depth = 0)
    {record : Json} {values : List Json} (h : record.fields? fields = some values) :
    ∀ v ∈ values, v.depth < record.depth := by
  unfold Json.fields? at h
  split at h
  · next members =>
    induction fields generalizing values with
    | nil =>
      cases h
      exact List.forall_mem_nil _
    | cons field fields ih =>
      rw [List.forall_mem_cons] at hf
      simp only [List.mapM_cons, bind, pure, Option.bind_eq_some_iff] at h
      obtain ⟨v, hv, values, hvalues, he⟩ := h
      cases he
      exact List.forall_mem_cons.2 ⟨depth_of_value? hf.1 hv, ih hf.2 hvalues⟩
  · next items =>
    exact fun v hv => Nat.lt_succ_of_le (depth_of_inOrder? hf h v hv)
  · cases h

theorem depth_of_required? {names : List String} {record : Json} {values : List Json}
    (h : record.required? names = some values) : ∀ v ∈ values, v.depth < record.depth := by
  refine depth_of_fields? ?_ h
  rw [List.forall_mem_map]
  rintro name - a ⟨⟩

theorem depthItems_of_mapM {α : Type} {decode : Json → Option α} {encode : α → Json}
    {items : List Json} {as : List α} (h : items.mapM decode = some as)
    (hd : ∀ a ∈ as, ∀ v, decode v = some a → (encode a).depth ≤ v.depth) :
    Json.depthItems (as.map encode) ≤ Json.depthItems items := by
  induction items generalizing as with
  | nil =>
    cases h
    exact Nat.le_refl _
  | cons item items ih =>
    simp only [List.mapM_cons, bind, pure, Option.bind_eq_some_iff] at h
    obtain ⟨a, hitem, as, hitems, he⟩ := h
    cases he
    rw [List.forall_mem_cons] at hd
    exact Nat.max_le.2 ⟨Nat.le_trans (hd.1 item hitem) (Nat.le_max_left _ _),
      Nat.le_trans (ih hitems hd.2) (Nat.le_max_right _ _)⟩

theorem Property.depth_of_ofJson? {p : Property} {numbered : Bool} {v : Json}
    (ht : ∀ numbered u, PropertyType.ofJson? numbered u = some p.type →
      p.type.toJson.depth ≤ u.depth)
    (h : ofJson? numbered v = some p) : p.toJson.depth ≤ v.depth := by
  rw [Property.ofJson?_eq] at h
  obtain ⟨values, hvalues, h⟩ := Option.bind_eq_some_iff.1 h
  unfold ofValues? at h
  split at h
  · next name isOptional isArray type =>
    simp only [bind, Option.bind_eq_some_iff] at h
    obtain ⟨t, htype, name, -, isOptional, -, isArray, -, he⟩ := h
    cases he
    have hfield := depth_of_required? hvalues type (by simp)
    rw [Property.depth_toJson]
    exact Nat.lt_of_le_of_lt (ht numbered type htype) hfield
  · cases h

theorem ObjectType.depth_of_ofJson? {o : ObjectType} {numbered : Bool} {v : Json}
    (ht : ∀ p ∈ o.properties, ∀ numbered u, PropertyType.ofJson? numbered u = some p.type →
      p.type.toJson.depth ≤ u.depth)
    (h : ofJson? numbered v = some o) : o.toJson.depth ≤ v.depth := by
  rw [ObjectType.ofJson?_eq] at h
  obtain ⟨values, hvalues, h⟩ := Option.bind_eq_some_iff.1 h
  unfold ofValues? at h
  split at h
  · next properties isArray =>
    simp only [bind, Option.bind_eq_some_iff] at h
    obtain ⟨ps, hps, isArray, -, he⟩ := h
    cases he
    have hlist : Json.depthItems (ps.map Property.toJson) < properties.depth := by
      unfold Property.listOfJson? at hps
      split at hps
      · refine Nat.lt_succ_of_le (depthItems_of_mapM hps fun p hp u => ?_)
        exact Property.depth_of_ofJson? (ht p hp)
      · cases hps
    have hfield := depth_of_required? hvalues properties List.mem_cons_self
    rw [ObjectType.depth_toJson]
    exact Nat.lt_of_le_of_lt hlist hfield
  · cases h

theorem PropertyType.depth_of_ofJson? (t : PropertyType) :
    ∀ {numbered : Bool} {v : Json}, ofJson? numbered v = some t → t.toJson.depth ≤ v.depth := by
  induction t using PropertyType.induction_on_objects with
  | primitive kind =>
    intro numbered v h
    obtain ⟨_, _, value, -, hvalues, -⟩ := PropertyType.ofJson?_eq_some_iff.1 h
    exact Nat.le_trans (Nat.succ_le_succ (Nat.zero_le value.depth))
      (depth_of_required? hvalues value (by simp))
  | reference name =>
    intro numbered v h
    obtain ⟨_, _, value, -, hvalues, -⟩ := PropertyType.ofJson?_eq_some_iff.1 h
    exact Nat.le_trans (Nat.succ_le_succ (Nat.zero_le value.depth))
      (depth_of_required? hvalues value (by simp))
  | object o ih =>
    intro numbered v h
    obtain ⟨kind, _, value, -, hvalues, hvalue⟩ := PropertyType.ofJson?_eq_some_iff.1 h
    have hobject : ObjectType.ofJson? true value = some o := by
      unfold ofValue? at hvalue
      split at hvalue
      · obtain ⟨_, -, he⟩ := Option.map_eq_some_iff.1 hvalue
        cases he
      · obtain ⟨_, -, he⟩ := Option.map_eq_some_iff.1 hvalue
        cases he
      · obtain ⟨_, hobject, he⟩ := Option.map_eq_some_iff.1 hvalue
        cases he
        exact hobject
      · cases hvalue
    have hdepth := ObjectType.depth_of_ofJson? (fun p hp _ _ => ih p hp) hobject
    rw [PropertyType.depth_toJson_object]
    exact Nat.lt_of_le_of_lt hdepth (depth_of_required? hvalues value (by simp))

theorem TypeDecl.depth_of_ofJson? {decl : TypeDecl} {v : Json} (h : ofJson? v = some decl) :
    decl.toJson.depth ≤ v.depth := by
  rw [TypeDecl.ofJson?_eq] at h
  obtain ⟨values, hvalues, h⟩ := Option.bind_eq_some_iff.1 h
  unfold ofValues? at h
  split at h
  · next name body =>
    simp only [bind, Option.bind_eq_some_iff] at h
    obtain ⟨name, -, o, hbody, he⟩ := h
    cases he
    have habsent : ∀ f ∈ [Json.Field.optional "name" (.string ""), .required "object"],
        ∀ a ∈ f.absent, a.depth = 0 := by
      simp [Json.Field.optional, Json.Field.required, Json.depth]
    have hfield := depth_of_fields? habsent hvalues body (by simp)
    have hdepth := ObjectType.depth_of_ofJson? (fun p _ _ _ => p.type.depth_of_ofJson?) hbody
    have hdecl : ∀ name, (TypeDecl.mk name o).toJson.depth = o.toJson.depth + 1 := by
      simp [TypeDecl.toJson, Json.depth, Json.depthMembers]
    rw [hdecl]
    exact Nat.lt_of_le_of_lt hdepth hfield
  · cases h

/-- **A type set takes no more levels of JSON than the document that it was decoded from.** -/
theorem TypeSet.depth_of_ofJson? {T : TypeSet} {v : Json} (h : ofJson? v = some T) :
    T.toJson.depth ≤ v.depth := by
  unfold ofJson? at h
  split at h
  · next items =>
    obtain ⟨decls, hdecls, rfl⟩ := Option.map_eq_some_iff.1 h
    exact Nat.succ_le_succ (depthItems_of_mapM hdecls fun decl _ u => TypeDecl.depth_of_ofJson?)
  · cases h

/-! ## Members that are left out -/

theorem value?_keep {field : Json.Field} {names : List String} {part : Json → Json}
    (hn : field.name ∈ names) (ha : field.absent.map part = field.absent)
    (members : List (String × Json)) :
    field.value? (Json.keep names part members) = (field.value? members).map part := by
  have hfilter : (Json.keep names part members).filter (·.1 = field.name) =
      (members.filter (·.1 = field.name)).map fun m => (m.1, part m.2) := by
    rw [Json.keep, List.filter_map, List.filter_filter]
    congr 1
    refine List.filter_congr fun m _ => ?_
    by_cases hm : m.1 = field.name <;> simp [hm, hn]
  rw [Json.Field.value?, hfilter, Json.Field.value?]
  generalize members.filter (·.1 = field.name) = found
  rcases found with _ | ⟨m, _ | ⟨m', found⟩⟩
  · exact ha.symm
  · rfl
  · rfl

theorem inOrder?_map {fields : List Json.Field} {part : Json → Json}
    (ha : ∀ f ∈ fields, f.absent.map part = f.absent) (items : List Json) :
    Json.Field.inOrder? fields (items.map part) =
      (Json.Field.inOrder? fields items).map (·.map part) := by
  induction fields generalizing items with
  | nil => cases items <;> rfl
  | cons field fields ih =>
    rw [List.forall_mem_cons] at ha
    cases items with
    | nil =>
      have hrest := ih ha.2 []
      rw [List.map_nil] at hrest ⊢
      rw [Json.Field.inOrder?]
      cases hfield : field.absent with
      | none => rfl
      | some a =>
        rw [hfield, Option.map_some, Option.some.injEq] at ha
        have hcons : ∀ values : List Json,
            (a :: values).map part = a :: values.map part := fun values => by
          rw [List.map_cons, ha.1]
        cases hvalues : Json.Field.inOrder? fields [] with
        | none => rfl
        | some values =>
          rw [hvalues, Option.map_some, Option.some.injEq] at hrest
          have hpure : some (a :: values) = some ((a :: values).map part) := by
            rw [hcons, ← hrest]
          exact hpure
    | cons item items =>
      rw [List.map_cons, Json.Field.inOrder?, ih ha.2, Json.Field.inOrder?]
      cases Json.Field.inOrder? fields items <;> rfl

/-- The fields of a record that are asked for are there in the part that is asked for. -/
theorem fields?_part {fields : List Json.Field} {names : List String} {inner : Json.Outline}
    (hf : ∀ f ∈ fields, f.name ∈ names ∧ f.absent.map (Json.part inner) = f.absent) (v : Json) :
    (v.part (names :: inner)).fields? fields =
      (v.fields? fields).map (·.map (Json.part inner)) := by
  cases v with
  | object members =>
    show fields.mapM (·.value? (Json.keep names (Json.part inner) members)) = _
    rw [Json.fields?]
    induction fields with
    | nil => rfl
    | cons field fields ih =>
      rw [List.forall_mem_cons] at hf
      rw [List.mapM_cons, List.mapM_cons, ih hf.2, value?_keep hf.1.1 hf.1.2]
      cases field.value? members <;> cases fields.mapM (·.value? members) <;> rfl
  | array items => exact inOrder?_map (fun f h => (hf f h).2) items
  | null | bool | number | string => rfl

theorem required?_part {names all : List String} {inner : Json.Outline} (hn : names ⊆ all) (v : Json) :
    (v.part (all :: inner)).required? names = (v.required? names).map (·.map (Json.part inner)) := by
  refine fields?_part ?_ v
  rw [List.forall_mem_map]
  exact fun name hname => ⟨hn hname, rfl⟩

theorem string?_part (o : Json.Outline) (v : Json) : (v.part o).string? = v.string? := by
  cases o <;> cases v <;> rfl

theorem bool?_part (o : Json.Outline) (v : Json) : (v.part o).bool? = v.bool? := by
  cases o <;> cases v <;> rfl

/-! The levels of the outline from the second on: a type, its object, the properties of that, and a
property. -/

theorem Property.ofJson?_part (numbered : Bool) (v : Json) :
    ofJson? numbered (v.part (TypeSet.outline.drop 4)) = ofJson? numbered v := by
  have hall : ∀ values : List Json, values.map (Json.part []) = values := fun values =>
    List.map_id values
  show ofJson? numbered (v.part [["propertyName", "isOptional", "isArray", "propertyType"]]) = _
  rw [Property.ofJson?_eq, Property.ofJson?_eq, required?_part (List.Subset.refl _)]
  simp only [hall, Option.map_id']

theorem Property.listOfJson?_part (numbered : Bool) (v : Json) :
    listOfJson? numbered (v.part (TypeSet.outline.drop 3)) = listOfJson? numbered v := by
  cases v with
  | array items =>
    show (items.map (Json.part (TypeSet.outline.drop 4))).mapM (Property.ofJson? numbered) =
      items.mapM (Property.ofJson? numbered)
    rw [List.mapM_map]
    congr 1
    funext item
    exact Property.ofJson?_part numbered item
  | null | bool | number | string | object => rfl

theorem ObjectType.ofJson?_part (numbered : Bool) (v : Json) :
    ofJson? numbered (v.part (TypeSet.outline.drop 2)) = ofJson? numbered v := by
  show ofJson? numbered (v.part (["properties", "isArray"] :: TypeSet.outline.drop 3)) = _
  rw [ObjectType.ofJson?_eq, ObjectType.ofJson?_eq, required?_part (List.Subset.refl _),
    Option.bind_map]
  congr 1
  funext values
  rcases values with _ | ⟨properties, _ | ⟨isArray, _ | ⟨v, values⟩⟩⟩
  · rfl
  · rfl
  · simp only [Function.comp, List.map_cons, List.map_nil, ofValues?, Property.listOfJson?_part,
      bool?_part]
  · rfl

theorem TypeDecl.ofJson?_part (v : Json) :
    ofJson? (v.part (TypeSet.outline.drop 1)) = ofJson? v := by
  show ofJson? (v.part (["name", "object"] :: TypeSet.outline.drop 2)) = _
  have hfields : ∀ f ∈ [Json.Field.optional "name" (.string ""), .required "object"],
      f.name ∈ ["name", "object"] ∧
        f.absent.map (Json.part (TypeSet.outline.drop 2)) = f.absent := by
    rw [List.forall_mem_cons, List.forall_mem_singleton]
    exact ⟨⟨by decide, rfl⟩, by decide, rfl⟩
  rw [TypeDecl.ofJson?_eq, TypeDecl.ofJson?_eq, fields?_part hfields, Option.bind_map]
  congr 1
  funext values
  rcases values with _ | ⟨name, _ | ⟨body, _ | ⟨v, values⟩⟩⟩
  · rfl
  · rfl
  · simp only [Function.comp, List.map_cons, List.map_nil, ofValues?, ObjectType.ofJson?_part,
      string?_part]
  · rfl

/-- **Decoding does not see what the outline leaves out.** -/
theorem TypeSet.ofJson?_part (v : Json) : ofJson? (v.part outline) = ofJson? v := by
  cases v with
  | array items =>
    show ((items.map (Json.part (outline.drop 1))).mapM TypeDecl.ofJson?).map TypeSet.mk =
      (items.mapM TypeDecl.ofJson?).map TypeSet.mk
    rw [List.mapM_map]
    congr 2
    funext item
    exact TypeDecl.ofJson?_part item
  | null | bool | number | string | object => rfl

/-- A text is restored as the document that it is read as, by whatever outline if only it asks for what
    restoring looks at. -/
theorem TypeSet.restore?_of_readOutline {o : Json.Outline} (ho : o.Covers outline) {text : String}
    {doc : Json} (h : Json.readOutline o text = .ok doc) : restore? text = ofJson? doc := by
  rw [restore?, Json.readOutline_part ho h, Except.toOption, Option.bind_some, ofJson?_part]

end TypedFlags.Schema
