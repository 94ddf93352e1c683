import TypedFlags.Json.Record
/-!
# What a record has in its fields

The value of a field depends neither on the order of an object's members (`Field.value?_perm`) nor on
members of other names (`Field.value?_add`). The kind of a record is a field like the others: to take
it off and to pick the fields of the rest is to pick the fields of the whole (`kinded?_iff`).

What is read in a field says which document stands there (`Reads`). So a record from which something
was made has in its fields what would be written of it (`Reads.single`, `Reads.pair`).
-/

set_option autoImplicit false

namespace TypedFlags.Json

/-! ## Values of fields in an object -/

section
variable {field : Field} {ms ns : List (String × Json)} {name : String} {v v' : Json}

/-- Members of one name may change places as well, for then the field has no value before or after. -/
theorem Field.value?_perm (h : ms.Perm ns) : field.value? ms = field.value? ns := by
  have hfilter := h.filter (·.1 = field.name)
  rw [Field.value?, Field.value?]
  generalize ms.filter (·.1 = field.name) = found at hfilter
  generalize ns.filter (·.1 = field.name) = found' at hfilter
  rcases found with _ | ⟨m, _ | ⟨m', found⟩⟩
  · rw [hfilter.nil_eq]
  · rw [← hfilter.singleton_eq]
  · have hlength := hfilter.length_eq
    rcases found' with _ | ⟨n, _ | ⟨n', found'⟩⟩
    · cases hlength
    · simp at hlength
    · rfl

theorem Field.value?_add (h : field.name ≠ name) :
    field.value? (ms ++ (name, v) :: ns) = field.value? (ms ++ ns) := by
  simp [Field.value?, h.symm]

theorem Field.value?_unknown (h : field.name ≠ name) :
    field.value? (ms ++ (name, v') :: ns) = field.value? (ms ++ (name, v) :: ns) := by
  rw [value?_add h, value?_add h]

/-- Any number of members of other names may be added. -/
theorem Field.value?_append (h : ∀ m ∈ ns, m.1 ≠ field.name) :
    field.value? (ms ++ ns) = field.value? ms := by
  have hnone : ns.filter (·.1 = field.name) = [] := by simpa using h
  rw [Field.value?, Field.value?, List.filter_append, hnone, List.append_nil]

/-- A field that is there has its value from the one member of its name. -/
theorem Field.value?_member {w : Json} (h : field.value? (ms ++ (field.name, v) :: ns) = some w) :
    w = v ∧ field.value? (ms ++ (field.name, v') :: ns) = some v' := by
  have hfilter : ∀ u, (ms ++ (field.name, u) :: ns).filter (·.1 = field.name) =
      ms.filter (·.1 = field.name) ++ (field.name, u) :: ns.filter (·.1 = field.name) := by
    intro u
    simp
  rw [Field.value?, hfilter] at h ⊢
  generalize ms.filter (·.1 = field.name) = found at h
  generalize ns.filter (·.1 = field.name) = found' at h
  rcases found with _ | ⟨m, _ | ⟨m', found⟩⟩
  · cases found' with
    | nil =>
      cases h
      exact ⟨rfl, rfl⟩
    | cons => cases h
  · cases h
  · cases h

end

/-! ## Values of all fields -/

section
variable {field : Field} {fields : List Field} {members ms ns : List (String × Json)}
  {value v : Json} {values : List Json}

theorem fields?_object_cons :
    (object members).fields? (field :: fields) = some (value :: values) ↔
      field.value? members = some value ∧ (object members).fields? fields = some values := by
  simp [fields?, Option.bind_eq_some_iff]

/-- Two objects that agree in each field agree in all. -/
theorem fields?_object_congr (h : ∀ field ∈ fields, field.value? ms = field.value? ns) :
    (object ms).fields? fields = (object ns).fields? fields := by
  induction fields with
  | nil => rfl
  | cons field fields ih =>
    obtain ⟨hfield, hfields⟩ := List.forall_mem_cons.1 h
    have hrest : fields.mapM (·.value? ms) = fields.mapM (·.value? ns) := ih hfields
    rw [fields?, fields?, List.mapM_cons, List.mapM_cons, hfield, hrest]

/-- Where a kind has been taken off a record, the rest of the record has the other fields. -/
theorem kinded?_iff {names : List String} {numbered : Bool} {kind : String} :
    (∃ record, v.kinded? names numbered = some (kind, record) ∧
        record.fields? fields = some values) ↔
      ∃ k, k.kind? names numbered = some kind ∧
        v.fields? (.required "kind" :: fields) = some (k :: values) := by
  cases v with
  | object members =>
    simp only [fields?_object_cons, kinded?, bind, pure, Option.bind_eq_some_iff]
    constructor
    · rintro ⟨record, ⟨k, hk, kind', hkind, he⟩, hr⟩
      cases he
      exact ⟨k, hkind, hk, hr⟩
    · rintro ⟨k, hkind, hk, hvalues⟩
      exact ⟨_, ⟨k, hk, kind, hkind, rfl⟩, hvalues⟩
  | array items =>
    cases items with
    | nil => simp [kinded?, fields?, Field.inOrder?, Field.required]
    | cons k items =>
      have hall : (array (k :: items)).fields? (.required "kind" :: fields) =
          ((array items).fields? fields).map (k :: ·) := rfl
      simp only [hall, kinded?, bind, pure, Option.bind_eq_some_iff, Option.map_eq_some_iff,
        List.cons.injEq]
      constructor
      · rintro ⟨record, ⟨kind', hkind, he⟩, hr⟩
        cases he
        exact ⟨k, hkind, _, hr, rfl, rfl⟩
      · rintro ⟨_, hkind, _, hr, rfl, rfl⟩
        exact ⟨_, ⟨kind, hkind, rfl⟩, hr⟩
  | null | bool | number | string => simp [kinded?, fields?]

end

/-! ## What a field holds -/

/-- Exactly one document is read as each value, the one that writes it. -/
def Reads {α : Type} (read? : Json → Option α) (write : α → Json) : Prop :=
  ∀ {v : Json} {a : α}, read? v = some a ↔ v = write a

theorem reads_string : Reads string? .string := by
  intro v s
  cases v <;> simp [string?]

theorem reads_bool : Reads bool? .bool := by
  intro v b
  cases v <;> simp [bool?]

theorem mapM_string?_eq_some_iff {items : List Json} {ss : List String} :
    items.mapM string? = some ss ↔ items = ss.map .string := by
  induction items generalizing ss with
  | nil => cases ss <;> simp
  | cons item items ih =>
    cases ss with
    | nil => simp [Option.bind_eq_some_iff]
    | cons s ss => simp [Option.bind_eq_some_iff, @reads_string item s, ih]

theorem reads_strings : Reads strings? fun ss => .array (ss.map .string) := by
  intro v ss
  cases v with
  | array items => simp [strings?, mapM_string?_eq_some_iff]
  | null | bool | number | string | object => simp [strings?]

section
variable {α β γ : Type} {read? : Json → Option α} {write : α → Json} {found : Option (List Json)}
  {c : γ}

/-- What is made of a record with one field is made of what is read there. -/
theorem Reads.single (hr : Reads read? write) {make : α → γ}
    (h : (found.bind fun | [v] => (read? v).bind fun a => some (make a) | _ => none) = some c) :
    ∃ a, found = some [write a] ∧ make a = c := by
  obtain ⟨values, hvalues, h⟩ := Option.bind_eq_some_iff.1 h
  split at h
  · obtain ⟨a, ha, he⟩ := Option.bind_eq_some_iff.1 h
    rw [hr.1 ha] at hvalues
    exact ⟨a, hvalues, Option.some.inj he⟩
  · cases h

/-- The same for a record with two fields. -/
theorem Reads.pair (hr : Reads read? write) {read'? : Json → Option β} {write' : β → Json}
    (hr' : Reads read'? write') {make : α → β → γ}
    (h : (found.bind fun
      | [v, w] => (read? v).bind fun a => (read'? w).bind fun b => some (make a b)
      | _ => none) = some c) :
    ∃ a b, found = some [write a, write' b] ∧ make a b = c := by
  obtain ⟨values, hvalues, h⟩ := Option.bind_eq_some_iff.1 h
  split at h
  · obtain ⟨a, ha, h⟩ := Option.bind_eq_some_iff.1 h
    obtain ⟨b, hb, he⟩ := Option.bind_eq_some_iff.1 h
    rw [hr.1 ha, hr'.1 hb] at hvalues
    exact ⟨a, b, hvalues, Option.some.inj he⟩
  · cases h

end

end TypedFlags.Json
