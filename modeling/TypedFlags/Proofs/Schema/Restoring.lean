import TypedFlags.Proofs.Schema.Decoding
import Mathlib.Data.List.Nodup
import Mathlib.Logic.Relation
/-!
# Stored texts that say the same

What a stored text is restored as depends neither on the order of the members of its objects nor on
members of names that mean nothing where they stand. Which names mean something, and what stands
under them, depends on what the object is there for (`Role`), and for what a property holds also on
its kind. `Edit` is one change that decoding must not see, `Role.Keeps` says that it does not see it,
and `Edit.keeps` is the induction over the place of the change.

Together with storing: **a type set that has been restored is restored again from its own stored text,
and from every text that differs from the first by such changes** (`TypeSet.restored_stable`). The
first half is not true of all type sets, because of the depth at which JSON is read; but one that has
been restored is stored with no more levels than the text had.
-/

set_option autoImplicit false

namespace TypedFlags.Schema

/-! ## Roles and changes -/

/-- What a document inside a stored type set is there for. -/
inductive Role where
  /-- The list of types. -/
  | types
  | type
  /-- The object of a type, or one that a property holds. -/
  | object
  /-- The list of the properties of an object. -/
  | properties
  | property
  /-- What a property holds. -/
  | held
  /-- A string, a truth value or a kind. -/
  | value
  deriving DecidableEq

namespace Role

/-- The role of the one field of a kind of what a property holds. -/
def ofKind (kind : String) : Role := if kind = "object" then .object else .value

/-- The fields of a record in their order, with their roles. For what a property holds they depend on
    its kind. -/
def fields (v : Json) : Role → List (String × Role)
  | .type => [("name", .value), ("object", .object)]
  | .object => [("properties", .properties), ("isArray", .value)]
  | .property =>
    [("propertyName", .value), ("isOptional", .value), ("isArray", .value), ("propertyType", .held)]
  | .held =>
    ("kind", .value) ::
      match v.kinded? PropertyType.kinds true with
      | some (kind, _) => [(PropertyType.field kind, ofKind kind)]
      | none => []
  | .types | .properties | .value => []

/-- The role of a member of an object, if its name means something there. In the place of a value
    every name does: a primitive kind may be given by an object with its name for the only member,
    and any name is that of a kind. -/
def member? (v : Json) (name : String) : Role → Option Role
  | .value => some .value
  | role => (role.fields v).lookup name

/-- The role of an item of an array. -/
def item? (v : Json) (i : Nat) : Role → Option Role
  | .types => some .type
  | .properties => some .property
  | .value => some .value
  | role => (role.fields v)[i]?.map (·.2)

end Role

/-- One change in a document of a given role, at any depth: the members of an object are put in another
    order, or a member is added whose name means nothing there, or such a member gets another
    value. -/
inductive Edit : Role → Json → Json → Prop
  | reorder {role : Role} {ms ms' : List (String × Json)} (h : ms.Perm ms') :
      Edit role (.object ms) (.object ms')
  | add {role : Role} {ms ns : List (String × Json)} {name : String}
      (h : role.member? (.object (ms ++ ns)) name = none) (v : Json) :
      Edit role (.object (ms ++ ns)) (.object (ms ++ (name, v) :: ns))
  | unknown {role : Role} {ms ns : List (String × Json)} {name : String} {v : Json}
      (h : role.member? (.object (ms ++ (name, v) :: ns)) name = none) (v' : Json) :
      Edit role (.object (ms ++ (name, v) :: ns)) (.object (ms ++ (name, v') :: ns))
  | member {role inner : Role} {ms ns : List (String × Json)} {name : String} {v v' : Json}
      (h : role.member? (.object (ms ++ (name, v) :: ns)) name = some inner) (he : Edit inner v v') :
      Edit role (.object (ms ++ (name, v) :: ns)) (.object (ms ++ (name, v') :: ns))
  | item {role inner : Role} {us ws : List Json} {v v' : Json}
      (h : role.item? (.array (us ++ v :: ws)) us.length = some inner) (he : Edit inner v v') :
      Edit role (.array (us ++ v :: ws)) (.array (us ++ v' :: ws))

/-! ## What is kept -/

/-- A value that no string, truth value or kind is read off, and that gives no kind its name. -/
inductive Mute : Json → Prop
  | array (items : List Json) : Mute (.array items)
  | members (m n : String × Json) (ms : List (String × Json)) : Mute (.object (m :: n :: ms))
  | member (name : String) {v : Json} (h : Mute v) : Mute (.object [(name, v)])

/-- Whatever a document is decoded as in its role, the other one is decoded as too. -/
def Role.Keeps : Role → Json → Json → Prop
  | .types, v, v' => ∀ T, TypeSet.ofJson? v = some T → TypeSet.ofJson? v' = some T
  | .type, v, v' => ∀ decl, TypeDecl.ofJson? v = some decl → TypeDecl.ofJson? v' = some decl
  | .object, v, v' => ∀ numbered o,
      ObjectType.ofJson? numbered v = some o → ObjectType.ofJson? numbered v' = some o
  | .properties, v, v' => ∀ numbered ps,
      Property.listOfJson? numbered v = some ps → Property.listOfJson? numbered v' = some ps
  | .property, v, v' => ∀ numbered p,
      Property.ofJson? numbered v = some p → Property.ofJson? numbered v' = some p
  | .held, v, v' => ∀ numbered t,
      PropertyType.ofJson? numbered v = some t → PropertyType.ofJson? numbered v' = some t
  | .value, v, v' => v = v' ∨ Mute v

theorem Role.Keeps.refl (role : Role) (v : Json) : role.Keeps v v := by
  cases role with
  | types | type => exact fun _ h => h
  | object | properties | property | held => exact fun _ _ h => h
  | value => exact .inl rfl

section
variable {v v' : Json}

theorem string?_keeps (h : Role.value.Keeps v v') {s : String} (hs : v.string? = some s) :
    v'.string? = some s := by
  obtain rfl | hm := h
  · exact hs
  · cases hm <;> cases hs

theorem bool?_keeps (h : Role.value.Keeps v v') {b : Bool} (hb : v.bool? = some b) :
    v'.bool? = some b := by
  obtain rfl | hm := h
  · exact hb
  · cases hm <;> cases hb

theorem kind?_keeps (h : Role.value.Keeps v v') {names : List String} {numbered : Bool}
    {kind : String} (hk : v.kind? names numbered = some kind) :
    v'.kind? names numbered = some kind := by
  obtain rfl | hm := h
  · exact hk
  · cases hm <;> cases hk

theorem Primitive.ofJson?_keeps (h : Role.value.Keeps v v') {kind : Primitive}
    (hk : ofJson? v = some kind) : ofJson? v' = some kind := by
  obtain rfl | hm := h
  · exact hk
  · cases hm with
    | array => cases hk
    | members => simp [ofJson?] at hk
    | member name hm => cases hm <;> simp [ofJson?] at hk

end

/-- What stands in the fields is kept, role by role. -/
inductive KeepsAll : List Role → List Json → List Json → Prop
  | nil : KeepsAll [] [] []
  | cons {role : Role} {roles : List Role} {v v' : Json} {vs vs' : List Json}
      (h : role.Keeps v v') (hs : KeepsAll roles vs vs') :
      KeepsAll (role :: roles) (v :: vs) (v' :: vs')

/-- A record that has all its fields has them after a change too, and what stands in them is kept. -/
def KeepsFields (fields : List (Json.Field × Role)) (v v' : Json) : Prop :=
  ∀ values, v.fields? (fields.map (·.1)) = some values →
    ∃ values', v'.fields? (fields.map (·.1)) = some values' ∧
      KeepsAll (fields.map (·.2)) values values'

/-- What is made of the values of the fields is kept, if it is kept wherever all of them are. -/
theorem KeepsFields.bind {α : Type} {fields : List (Json.Field × Role)} {v v' : Json}
    {make : List Json → Option α} {a : α} (h : KeepsFields fields v v')
    (hm : ∀ values values', KeepsAll (fields.map (·.2)) values values' →
      make values = some a → make values' = some a)
    (ha : (v.fields? (fields.map (·.1))).bind make = some a) :
    (v'.fields? (fields.map (·.1))).bind make = some a := by
  obtain ⟨values, hvalues, ha⟩ := Option.bind_eq_some_iff.1 ha
  obtain ⟨values', hvalues', hkeeps⟩ := h values hvalues
  rw [hvalues', Option.bind_some]
  exact hm values values' hkeeps ha

/-- The documents of a role are records. -/
inductive Role.IsRecord : Role → Prop
  | type : IsRecord .type
  | object : IsRecord .object
  | property : IsRecord .property
  | held : IsRecord .held

/-- The fields of a record by their names and roles. -/
def Role.Lists (role : Role) (v : Json) (fields : List (Json.Field × Role)) : Prop :=
  role.fields v = fields.map (fun f => (f.1.name, f.2)) ∧ (fields.map (·.1.name)).Nodup

theorem ObjectType.keeps {v v' : Json}
    (h : ∀ fields, Role.object.Lists v fields → KeepsFields fields v v') :
    Role.object.Keeps v v' := by
  intro numbered o ho
  rw [ObjectType.ofJson?_eq] at ho ⊢
  have hfields := h [(.required "properties", .properties), (.required "isArray", .value)]
    ⟨rfl, by decide⟩
  refine hfields.bind (fun values values' hkeeps ho => ?_) ho
  rcases hkeeps with _ | ⟨hproperties, _ | ⟨hisArray, ⟨⟩⟩⟩
  simp only [ofValues?, bind, Option.bind_eq_some_iff] at ho ⊢
  obtain ⟨ps, hps, b, hb, ho⟩ := ho
  exact ⟨ps, hproperties numbered ps hps, b, bool?_keeps hisArray hb, ho⟩

theorem Property.keeps {v v' : Json}
    (h : ∀ fields, Role.property.Lists v fields → KeepsFields fields v v') :
    Role.property.Keeps v v' := by
  intro numbered p hp
  rw [Property.ofJson?_eq] at hp ⊢
  have hfields := h [(.required "propertyName", .value), (.required "isOptional", .value),
    (.required "isArray", .value), (.required "propertyType", .held)] ⟨rfl, by decide⟩
  refine hfields.bind (fun values values' hkeeps hp => ?_) hp
  rcases hkeeps with _ | ⟨hname, _ | ⟨hisOptional, _ | ⟨hisArray, _ | ⟨htype, ⟨⟩⟩⟩⟩⟩
  simp only [ofValues?, bind, Option.bind_eq_some_iff] at hp ⊢
  obtain ⟨t, ht, name, hn, isOptional, ho, isArray, ha, hp⟩ := hp
  exact ⟨t, htype numbered t ht, name, string?_keeps hname hn, isOptional,
    bool?_keeps hisOptional ho, isArray, bool?_keeps hisArray ha, hp⟩

theorem TypeDecl.keeps {v v' : Json}
    (h : ∀ fields, Role.type.Lists v fields → KeepsFields fields v v') : Role.type.Keeps v v' := by
  intro decl hd
  rw [TypeDecl.ofJson?_eq] at hd ⊢
  have hfields := h [(.optional "name" (.string ""), .value), (.required "object", .object)]
    ⟨rfl, by decide⟩
  refine hfields.bind (fun values values' hkeeps hd => ?_) hd
  rcases hkeeps with _ | ⟨hname, _ | ⟨hbody, ⟨⟩⟩⟩
  simp only [ofValues?, bind, Option.bind_eq_some_iff] at hd ⊢
  obtain ⟨name, hn, o, ho, hd⟩ := hd
  exact ⟨name, string?_keeps hname hn, o, hbody false o ho, hd⟩

theorem kind?_numbered {names : List String} {numbered : Bool} {v : Json} {kind : String}
    (h : v.kind? names numbered = some kind) :
    v.kind? names true = some kind ∧ kind ∈ names := by
  unfold Json.kind? at h ⊢
  split at h
  · next name =>
    split at h
    · next hname =>
      cases h
      exact ⟨if_pos hname, hname⟩
    · cases h
  · next n fits =>
    split at h
    · next hn => exact ⟨by rw [if_pos ⟨rfl, hn.2⟩, h], List.mem_of_getElem? h⟩
    · cases h
  · cases h

theorem PropertyType.ofValue?_keeps {kind : String} {v v' : Json}
    (h : (Role.ofKind kind).Keeps v v') {t : PropertyType} (ht : ofValue? kind v = some t) :
    ofValue? kind v' = some t := by
  unfold ofValue? at ht ⊢
  split at ht
  · obtain ⟨k, hk, rfl⟩ := Option.map_eq_some_iff.1 ht
    rw [Option.map_eq_some_iff]
    exact ⟨k, Primitive.ofJson?_keeps h hk, rfl⟩
  · obtain ⟨s, hs, rfl⟩ := Option.map_eq_some_iff.1 ht
    rw [Option.map_eq_some_iff]
    exact ⟨s, string?_keeps h hs, rfl⟩
  · obtain ⟨o, ho, rfl⟩ := Option.map_eq_some_iff.1 ht
    rw [Option.map_eq_some_iff]
    exact ⟨o, h true o ho, rfl⟩
  · cases ht

theorem PropertyType.keeps {v v' : Json}
    (h : ∀ fields, Role.held.Lists v fields → KeepsFields fields v v') : Role.held.Keeps v v' := by
  intro numbered t ht
  rw [PropertyType.ofJson?_eq_some_iff] at ht ⊢
  obtain ⟨kind, k, value, hkind, hvalues, ht⟩ := ht
  obtain ⟨hkind', hmem⟩ := kind?_numbered hkind
  obtain ⟨record, hrecord, -⟩ := Json.kinded?_iff.2 ⟨k, hkind', hvalues⟩
  have hlists : Role.held.Lists v
      [(.required "kind", .value), (.required (field kind), .ofKind kind)] := by
    refine ⟨by rw [Role.fields, hrecord]; rfl, ?_⟩
    have hne : ∀ kind ∈ kinds, ["kind", field kind].Nodup := by decide
    exact hne kind hmem
  obtain ⟨values', hvalues', hkeeps⟩ := h _ hlists _ hvalues
  rcases hkeeps with _ | ⟨hk, _ | ⟨hvalue, ⟨⟩⟩⟩
  exact ⟨kind, _, _, kind?_keeps hk hkind, hvalues', ofValue?_keeps hvalue ht⟩

/-- A record of any role is kept if its fields are. -/
theorem Role.keeps_record {role : Role} (hr : role.IsRecord) {v v' : Json}
    (h : ∀ fields, role.Lists v fields → KeepsFields fields v v') : role.Keeps v v' := by
  cases hr with
  | type => exact TypeDecl.keeps h
  | object => exact ObjectType.keeps h
  | property => exact Property.keeps h
  | held => exact PropertyType.keeps h

/-! ## Changes of records -/

/-- In an object it is enough to look at one field at a time. -/
theorem keepsFields_object {fields : List (Json.Field × Role)} {ms ms' : List (String × Json)}
    (h : ∀ f ∈ fields, ∀ v, f.1.value? ms = some v →
      ∃ v', f.1.value? ms' = some v' ∧ f.2.Keeps v v') :
    KeepsFields fields (.object ms) (.object ms') := by
  induction fields with
  | nil =>
    rintro values ⟨⟩
    exact ⟨[], rfl, .nil⟩
  | cons f fields ih =>
    intro values hvalues
    rw [List.forall_mem_cons] at h
    simp only [Json.fields?, List.map_cons, List.mapM_cons, bind, pure,
      Option.bind_eq_some_iff] at hvalues ⊢
    obtain ⟨v, hv, vs, hvs, he⟩ := hvalues
    cases he
    obtain ⟨v', hv', hkeeps⟩ := h.1 v hv
    obtain ⟨vs', hvs', hall⟩ := ih h.2 vs hvs
    exact ⟨_, ⟨v', hv', vs', hvs', rfl⟩, .cons hkeeps hall⟩

/-- What is not changed is kept. -/
theorem keepsAll_inOrder? {fields : List (Json.Field × Role)} {items values : List Json}
    (h : Json.Field.inOrder? (fields.map (·.1)) items = some values) :
    KeepsAll (fields.map (·.2)) values values := by
  induction fields generalizing items values with
  | nil =>
    cases items with
    | nil =>
      cases h
      exact .nil
    | cons => cases h
  | cons f fields ih =>
    cases items with
    | nil =>
      simp only [List.map_cons, Json.Field.inOrder?, bind, pure, Option.bind_eq_some_iff] at h
      obtain ⟨a, -, values, hvalues, he⟩ := h
      cases he
      exact .cons (.refl _ _) (ih hvalues)
    | cons item items =>
      obtain ⟨values, hvalues, rfl⟩ := Option.map_eq_some_iff.1 h
      exact .cons (.refl _ _) (ih hvalues)

theorem keepsFields_array {fields : List (Json.Field × Role)} {us ws : List Json} {v v' : Json}
    (h : ∀ f, fields[us.length]? = some f → f.2.Keeps v v') :
    KeepsFields fields (.array (us ++ v :: ws)) (.array (us ++ v' :: ws)) := by
  induction fields generalizing us with
  | nil =>
    intro values hvalues
    cases us <;> cases hvalues
  | cons f fields ih =>
    intro values hvalues
    cases us with
    | nil =>
      obtain ⟨values, hrest, rfl⟩ := Option.map_eq_some_iff.1 hvalues
      refine ⟨v' :: values, Option.map_eq_some_iff.2 ⟨values, hrest, rfl⟩, ?_⟩
      exact .cons (h f rfl) (keepsAll_inOrder? hrest)
    | cons u us =>
      obtain ⟨values, hrest, rfl⟩ := Option.map_eq_some_iff.1 hvalues
      obtain ⟨values', hrest', hall⟩ := ih h values hrest
      exact ⟨u :: values', Option.map_eq_some_iff.2 ⟨values', hrest', rfl⟩, .cons (.refl _ _) hall⟩

/-! ## Changes at any depth -/

section
variable {role inner : Role} {v : Json} {fields : List (Json.Field × Role)} {name : String}

theorem Role.member?_record (hr : role.IsRecord) : role.member? v name = (role.fields v).lookup name := by
  cases hr <;> rfl

theorem Role.item?_record (hr : role.IsRecord) {i : Nat} :
    role.item? v i = (role.fields v)[i]?.map (·.2) := by
  cases hr <;> rfl

/-- A name that means nothing is not that of a field. -/
theorem Role.Lists.unknown (hl : role.Lists v fields) (hr : role.IsRecord)
    (h : role.member? v name = none) : ∀ f ∈ fields, f.1.name ≠ name := by
  rw [Role.member?_record hr, hl.1, List.lookup_eq_none_iff, List.forall_mem_map] at h
  intro f hf hname
  have hne := h f hf
  simp [hname] at hne

/-- A name that means something has the role of the field with that name. -/
theorem Role.Lists.known (hl : role.Lists v fields) (hr : role.IsRecord)
    (h : role.member? v name = some inner) : ∀ f ∈ fields, f.1.name = name → f.2 = inner := by
  rw [Role.member?_record hr, hl.1, List.lookup_eq_some_iff] at h
  obtain ⟨l, l', hmap, -⟩ := h
  have hmem : (name, inner) ∈ fields.map fun f => (f.1.name, f.2) := by
    rw [hmap]
    exact List.mem_append_right _ List.mem_cons_self
  obtain ⟨g, hg, he⟩ := List.mem_map.1 hmem
  cases he
  intro f hf hname
  rw [List.inj_on_of_nodup_map hl.2 hf hg hname]

end

/-- Where an object is there for a list it is not decoded at all, and what remains is a record or a
    value. -/
theorem Role.keeps_object {role : Role} {ms ms' : List (String × Json)}
    (hrecord : role.IsRecord → ∀ fields, role.Lists (.object ms) fields →
      KeepsFields fields (.object ms) (.object ms'))
    (hvalue : role = .value → Role.value.Keeps (.object ms) (.object ms')) :
    role.Keeps (.object ms) (.object ms') := by
  cases role with
  | types => rintro T ⟨⟩
  | properties => rintro numbered ps ⟨⟩
  | value => exact hvalue rfl
  | type => exact Role.keeps_record .type (hrecord .type)
  | object => exact Role.keeps_record .object (hrecord .object)
  | property => exact Role.keeps_record .property (hrecord .property)
  | held => exact Role.keeps_record .held (hrecord .held)

theorem mapM_replace {α : Type} {decode : Json → Option α} {us ws : List Json} {v v' : Json}
    (hv : ∀ a, decode v = some a → decode v' = some a) {as : List α}
    (h : (us ++ v :: ws).mapM decode = some as) : (us ++ v' :: ws).mapM decode = some as := by
  induction us generalizing as with
  | nil =>
    simp only [List.nil_append, List.mapM_cons, bind, Option.bind_eq_some_iff] at h ⊢
    obtain ⟨a, ha, rest, hrest, he⟩ := h
    exact ⟨a, hv a ha, rest, hrest, he⟩
  | cons u us ih =>
    simp only [List.cons_append, List.mapM_cons, bind, Option.bind_eq_some_iff] at h ⊢
    obtain ⟨a, ha, rest, hrest, he⟩ := h
    exact ⟨a, ha, rest, ih hrest, he⟩

/-- In the place of a value only an object with one member may say anything, and it has no other
    order. -/
theorem keeps_reordered_value {ms ms' : List (String × Json)} (h : ms.Perm ms') :
    Role.value.Keeps (.object ms) (.object ms') := by
  rcases ms with _ | ⟨m, _ | ⟨n, ms⟩⟩
  · rw [h.nil_eq]
    exact .refl _ _
  · rw [← h.singleton_eq]
    exact .refl _ _
  · exact .inr (.members m n ms)

theorem keeps_member_of_value {ms ns : List (String × Json)} {name : String} {v v' : Json}
    (h : Role.value.Keeps v v') :
    Role.value.Keeps (.object (ms ++ (name, v) :: ns)) (.object (ms ++ (name, v') :: ns)) := by
  obtain rfl | hm := h
  · exact .refl _ _
  · refine .inr ?_
    rcases ms with _ | ⟨m, _ | ⟨m', ms⟩⟩
    · cases ns with
      | nil => exact .member name hm
      | cons n ns => exact .members _ _ _
    · exact .members _ _ _
    · exact .members _ _ _

/-- **A change is not seen by who decodes the document**, in whatever role. -/
theorem Edit.keeps {role : Role} {v v' : Json} (h : Edit role v v') : role.Keeps v v' := by
  induction h with
  | reorder h =>
    refine Role.keeps_object (fun _ fields _ => keepsFields_object fun f _ v hv => ?_) ?_
    · exact ⟨v, by rw [← Json.Field.value?_perm h, hv], .refl _ _⟩
    · exact fun _ => keeps_reordered_value h
  | add h u =>
    refine Role.keeps_object (fun hr fields hl => keepsFields_object fun f hf v hv => ?_) ?_
    · exact ⟨v, by rw [Json.Field.value?_add (hl.unknown hr h f hf), hv], .refl _ _⟩
    · rintro rfl
      cases h
  | unknown h u =>
    refine Role.keeps_object (fun hr fields hl => keepsFields_object fun f hf v hv => ?_) ?_
    · exact ⟨v, by rw [Json.Field.value?_unknown (hl.unknown hr h f hf), hv], .refl _ _⟩
    · rintro rfl
      cases h
  | @member role inner ms ns name u u' h _ ih =>
    refine Role.keeps_object (fun hr fields hl => keepsFields_object fun f hf v hv => ?_) ?_
    · by_cases hname : f.1.name = name
      · subst hname
        obtain ⟨rfl, hv'⟩ := Json.Field.value?_member hv
        exact ⟨u', hv', hl.known hr h f hf rfl ▸ ih⟩
      · exact ⟨v, by rw [Json.Field.value?_unknown hname, hv], .refl _ _⟩
    · rintro rfl
      cases h
      exact keeps_member_of_value ih
  | @item role inner us ws u u' h _ ih =>
    have hrecord : role.IsRecord → role.Keeps (.array (us ++ u :: ws)) (.array (us ++ u' :: ws)) := by
      intro hr
      refine Role.keeps_record hr fun fields hl => keepsFields_array fun f hf => ?_
      rw [Role.item?_record hr, hl.1, List.getElem?_map, hf] at h
      cases h
      exact ih
    cases role with
    | types =>
      cases h
      intro T hT
      obtain ⟨decls, hdecls, rfl⟩ := Option.map_eq_some_iff.1 hT
      exact Option.map_eq_some_iff.2 ⟨decls, mapM_replace ih hdecls, rfl⟩
    | properties =>
      cases h
      exact fun numbered ps hps => mapM_replace (ih numbered) hps
    | value => exact .inr (.array _)
    | type => exact hrecord .type
    | object => exact hrecord .object
    | property => exact hrecord .property
    | held => exact hrecord .held

/-- Nor are any number of changes. -/
theorem TypeSet.ofJson?_of_edits {T : TypeSet} {v v' : Json}
    (h : Relation.ReflTransGen (Edit .types) v v') (hT : ofJson? v = some T) :
    ofJson? v' = some T := by
  induction h with
  | refl => exact hT
  | tail _ hedit ih => exact hedit.keeps T ih

/-! ## Restored type sets -/

/-- **What has been restored is stable.** Its own stored text is restored as the same type set; and so is
    every text whose document has come about from that of the first by changes that mean nothing. The
    documents may be those of the whole texts, or leave out members that restoring passes over. -/
theorem TypeSet.restored_stable {text : String} {T : TypeSet} (h : restore? text = some T) :
    restore? T.stored = some T ∧
      ∀ {o : Json.Outline} {text' : String} {doc doc' : Json}, o.Covers outline →
        Json.readOutline o text = .ok doc → Json.readOutline o text' = .ok doc' →
          Relation.ReflTransGen (Edit .types) doc doc' → restore? text' = some T := by
  constructor
  · obtain ⟨doc, hdoc, hT⟩ := Option.bind_eq_some_iff.1 h
    have hread := Json.depth_le_of_readOutline (toOption_eq_some_iff.1 hdoc)
    have hdepth : T.toJson.depth ≤ Json.maxDepth := Nat.le_trans (TypeSet.depth_of_ofJson? hT) hread
    exact restore?_stored_eq_some_iff.2 ⟨rfl, T.depth_toJson_le_iff.1 hdepth⟩
  · intro o text' doc doc' ho hdoc hdoc' hedits
    rw [restore?_of_readOutline ho hdoc] at h
    rw [restore?_of_readOutline ho hdoc']
    exact TypeSet.ofJson?_of_edits hedits h

/-- A type without a name and a primitive kind that is not known, said before its record is said to be
    one of a primitive kind; then the name of the property goes to the front, and the type gets a
    member that means nothing. -/
theorem TypeSet.restored_stable_decimal :
    let held : Json := .object [("primitive", .string "decimal"), ("kind", .string "primitive")]
    let name : String × Json := ("propertyName", .string "x")
    let flags : List (String × Json) :=
      [("propertyType", held), ("isOptional", .bool true), ("isArray", .bool false)]
    let body (members : List (String × Json)) : String × Json :=
      ("object", .object [("isArray", .bool false), ("properties", .array [.object members])])
    let doc : Json := .array [.object [body (flags ++ [name])]]
    let doc' : Json := .array [.object [body (name :: flags), ("version", .array [.null])]]
    let T : TypeSet := ⟨[⟨"", ⟨[⟨"x", true, false, .primitive .unrecognized⟩], false⟩⟩]⟩
    restore? doc.text = some T ∧ restore? T.stored = some T ∧ restore? doc'.text = some T := by
  intro held name flags body doc doc' T
  have hT : restore? doc.text = some T := by decide +kernel
  have hmoved : Edit .type (.object [body (flags ++ [name])]) (.object [body (name :: flags)]) := by
    have hmembers : Edit .property (.object (flags ++ [name])) (.object (name :: flags)) :=
      .reorder (List.perm_append_singleton name flags)
    have hlist : Edit .properties (.array ([] ++ [.object (flags ++ [name])]))
        (.array ([] ++ [.object (name :: flags)])) := .item rfl hmembers
    have hobject : Edit .object
        (.object ([("isArray", .bool false)] ++ [("properties", .array [.object (flags ++ [name])])]))
        (.object ([("isArray", .bool false)] ++ [("properties", .array [.object (name :: flags)])])) :=
      .member rfl hlist
    have htype : Edit .type (.object ([] ++ [body (flags ++ [name])]))
        (.object ([] ++ [body (name :: flags)])) := .member rfl hobject
    exact htype
  have hadded : Edit .type (.object ([body (name :: flags)] ++ []))
      (.object ([body (name :: flags)] ++ [("version", .array [.null])])) := .add rfl _
  have hitem : ∀ {v v' : Json}, Edit .type v v' →
      Edit .types (.array ([] ++ [v])) (.array ([] ++ [v'])) := fun h => .item rfl h
  have hedits : Relation.ReflTransGen (Edit .types) doc doc' :=
    .tail (.single (hitem hmoved)) (hitem hadded)
  obtain ⟨hstored, hchanged⟩ := restored_stable hT
  have hprint : doc.Printable := by simp [doc, body, flags, name, held]
  have hprint' : doc'.Printable := by simp [doc', body, flags, name, held, Json.Printable.null]
  have hdoc := hprint.read_text (by decide)
  have hdoc' := hprint'.read_text (by decide)
  have hall : Json.Outline.Covers [] outline := by decide
  exact ⟨hT, hstored, hchanged hall hdoc hdoc' hedits⟩

end TypedFlags.Schema
