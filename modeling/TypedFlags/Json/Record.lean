import TypedFlags.Json.Basic
/-!
# Records in JSON

A record has fields in a fixed order. It is stored in one of two forms: as an object whose members
are the fields, in any order and among members of other names, or as an array of the values of the
fields, in their order. In an object a field that is there twice is refused, whatever it holds; an
array may leave out fields only at its end, and has no items but fields.

A record of one of several **kinds** has one field more, its kind, which is a member `kind` of the
object or the first item of the array.
-/

set_option autoImplicit false

namespace TypedFlags.Json

/-! ## Fields -/

/-- A field of a record: its name, and the value that it has where it is left out. -/
structure Field where
  name : String
  absent : Option Json

namespace Field

/-- A field that has to be there. -/
def required (name : String) : Field := ⟨name, none⟩

/-- A field that may be left out, which means the given value. -/
def optional (name : String) (value : Json) : Field := ⟨name, some value⟩

/-- The value of a field among the members of an object. -/
def value? (field : Field) (members : List (String × Json)) : Option Json :=
  match members.filter (·.1 = field.name) with
  | [] => field.absent
  | [(_, v)] => some v
  | _ => none

/-- The values of fields that are written in order. -/
def inOrder? : List Field → List Json → Option (List Json)
  | [], [] => some []
  | [], _ :: _ => none
  | field :: fields, [] => do return (← field.absent) :: (← inOrder? fields [])
  | _ :: fields, value :: values => (inOrder? fields values).map (value :: ·)

end Field

/-- The values of a record's fields, in the order of the fields. -/
def fields? (fields : List Field) : Json → Option (List Json)
  | .object members => fields.mapM (·.value? members)
  | .array items => Field.inOrder? fields items
  | _ => none

/-- The values of a record's fields if all of them have to be there. -/
def required? (names : List String) (v : Json) : Option (List Json) :=
  v.fields? (names.map .required)

/-! ## Kinds -/

/-- The kind that a value says: one of the given kinds by its name, or by its place among them if
    `numbered` says that this will do. -/
def kind? (kinds : List String) (numbered : Bool) : Json → Option String
  | .string name => if name ∈ kinds then some name else none
  | .number (.integer n _) => if numbered ∧ 0 ≤ n then kinds[n.toNat]? else none
  | _ => none

/-- The kind of a record that has one, and the record without it. -/
def kinded? (kinds : List String) (numbered : Bool) : Json → Option (String × Json)
  | .object members => do
    let kind ← (Field.required "kind").value? members
    return (← kind.kind? kinds numbered, .object members)
  | .array (kind :: items) => do return (← kind.kind? kinds numbered, .array items)
  | _ => none

/-! ## What a field holds -/

/-- A string. -/
def string? : Json → Option String
  | .string s => some s
  | _ => none

/-- A truth value. -/
def bool? : Json → Option Bool
  | .bool b => some b
  | _ => none

/-- A list of strings. -/
def strings? : Json → Option (List String)
  | .array items => items.mapM string?
  | _ => none

/-! ## Fields are smaller than their record -/

/-- The value of a field that has to be there is a member of the object. -/
theorem value?_required_mem {name : String} {members : List (String × Json)} {v : Json}
    (h : (Field.required name).value? members = some v) : (name, v) ∈ members := by
  unfold Field.value? Field.required at h
  split at h
  · cases h
  · next n w hf =>
    cases h
    have hm : (n, v) ∈ members.filter (·.1 = name) := by rw [hf]; simp
    have := List.mem_filter.1 hm
    simp only [decide_eq_true_eq] at this
    rw [← this.2]; exact this.1
  · cases h

theorem mem_of_mapM_value? {names : List String} {members : List (String × Json)}
    {values : List Json} {v : Json}
    (h : (names.map Field.required).mapM (·.value? members) = some values) (hv : v ∈ values) :
    ∃ name, (name, v) ∈ members := by
  induction names generalizing values with
  | nil => cases h; cases hv
  | cons name names ih =>
    simp only [List.map_cons, List.mapM_cons, bind, Option.bind_eq_some_iff] at h
    obtain ⟨w, hw, ws, hws, he⟩ := h
    cases he
    cases hv with
    | head => exact ⟨name, value?_required_mem hw⟩
    | tail _ hv => exact ih hws hv

theorem mem_of_inOrder? {names : List String} {items values : List Json} {v : Json}
    (h : Field.inOrder? (names.map .required) items = some values) (hv : v ∈ values) :
    v ∈ items := by
  induction names generalizing items values with
  | nil =>
    cases items with
    | nil => cases h; cases hv
    | cons => cases h
  | cons name names ih =>
    cases items with
    | nil => cases h
    | cons item items =>
      simp only [List.map_cons, Field.inOrder?, Option.map_eq_some_iff] at h
      obtain ⟨ws, hws, he⟩ := h
      cases he
      cases hv with
      | head => exact .head _
      | tail _ hv => exact .tail _ (ih hws hv)

/-- A field that has to be there is smaller than its record. -/
theorem sizeOf_required_lt {names : List String} {v value : Json} {values : List Json}
    (h : v.required? names = some values) (hv : value ∈ values) : sizeOf value < sizeOf v := by
  unfold required? fields? at h
  split at h
  · obtain ⟨_, hm⟩ := mem_of_mapM_value? h hv
    exact sizeOf_member_lt hm
  · exact sizeOf_item_lt (mem_of_inOrder? h hv)
  · cases h

/-- A record without its kind is no larger than the record. -/
theorem sizeOf_kinded_le {kinds : List String} {numbered : Bool} {v record : Json} {kind : String}
    (h : v.kinded? kinds numbered = some (kind, record)) : sizeOf record ≤ sizeOf v := by
  unfold kinded? at h
  split at h
  · simp only [bind, pure, Option.bind_eq_some_iff] at h
    obtain ⟨_, _, _, _, he⟩ := h
    cases he
    exact Nat.le_refl _
  · simp only [bind, pure, Option.bind_eq_some_iff] at h
    obtain ⟨_, _, he⟩ := h
    cases he
    simp
  · cases h

end TypedFlags.Json
