import TypedFlags.Proofs.Binary64.Whole
import TypedFlags.Proofs.Except
import TypedFlags.Schema.Check
/-!
# Conformance

What it means that a value conforms to a schema, as an inductive relation over the value: nothing is
said of requirements, of labels or of the order in which violations are found. References are
followed by name, to the first type that has it, so the relation makes sense of every type set, with
repeated names, types that refer to each other in circles and references to no type.

**Checking decides conformance** (`TypeSet.check_eq_ok_iff`). The schema is no measure for the
induction, for a reference may lead back to where it stands; the value is. At each value four
statements are shown in turn (a record, an object type, a property type, a property), and only the
record needs them for smaller values.
-/

set_option autoImplicit false

namespace TypedFlags.Schema

/-! ## The relation -/

/-- A value is of a primitive kind. Nothing is of a kind that is not recognized. -/
inductive Primitive.Admits : Primitive → Json → Prop
  | boolean (b : Bool) : Admits .boolean (.bool b)
  | integer (n : Int) (fits : Json.Fits n) : Admits .integer (.number (.integer n fits))
  | wholeFloat (x : Binary64) (h : x.Whole) : Admits .integer (.number (.float x))
  | float (n : Json.Number) : Admits .float (.number n)
  | number (n : Json.Number) : Admits .number (.number n)
  | string (s : String) : Admits .string (.string s)

/-- The first type of a set that has the given name. -/
def TypeSet.First (types : TypeSet) (name : String) (decl : TypeDecl) : Prop :=
  ∃ before after, types.types = before ++ decl :: after ∧ decl.name = name ∧
    ∀ other ∈ before, other.name ≠ name

/-- The items of an array as members, each under its index. -/
def indexed (items : List Json) : List (String × Json) :=
  items.zipIdx.map fun (item, i) => (toString i, item)

mutual

/-- A value conforms to an object type: it has the shape of the type's properties, or is an array of
    such values if the type says so. -/
inductive ObjectType.Conforms (types : TypeSet) : ObjectType → Json → Prop
  | single {o : ObjectType} {v : Json} (h : o.isArray = false) (hv : Shape types o.properties v) :
      ObjectType.Conforms types o v
  | array {o : ObjectType} {items : List Json} (h : o.isArray = true)
      (hv : ∀ v ∈ items, Shape types o.properties v) : ObjectType.Conforms types o (.array items)

/-- A value has the shape of a list of properties: it is an object, or an array read as one. -/
inductive Shape (types : TypeSet) : List Property → Json → Prop
  | object {ps : List Property} {members : List (String × Json)}
      (h : MembersConform types ps members) : Shape types ps (.object members)
  | array {ps : List Property} {items : List Json} (h : MembersConform types ps (indexed items)) :
      Shape types ps (.array items)

/-- Members have the shape of a list of properties: each is declared, each that is not optional is
    there, and what is there under a declared name conforms to the property. -/
inductive MembersConform (types : TypeSet) : List Property → List (String × Json) → Prop
  | intro {ps : List Property} {members : List (String × Json)}
      (declared : ∀ m ∈ members, ∃ p ∈ ps, p.name = m.1)
      (required : ∀ p ∈ ps, p.isOptional = false → ∃ m ∈ members, m.1 = p.name)
      (conform : ∀ p ∈ ps, ∀ v, members.lookup p.name = some v → Property.Conforms types p v) :
      MembersConform types ps members

/-- A value conforms to a property: to its type, or it is an array of such values if the property
    says so. -/
inductive Property.Conforms (types : TypeSet) : Property → Json → Prop
  | single {p : Property} {v : Json} (h : p.isArray = false)
      (hv : PropertyType.Conforms types p.type v) : Property.Conforms types p v
  | array {p : Property} {items : List Json} (h : p.isArray = true)
      (hv : ∀ v ∈ items, PropertyType.Conforms types p.type v) :
      Property.Conforms types p (.array items)

/-- A value conforms to the type of a property. -/
inductive PropertyType.Conforms (types : TypeSet) : PropertyType → Json → Prop
  | primitive {kind : Primitive} {v : Json} (h : kind.Admits v) :
      PropertyType.Conforms types (.primitive kind) v
  | reference {name : String} {decl : TypeDecl} {v : Json} (hne : name ≠ "")
      (hf : types.First name decl) (hv : ObjectType.Conforms types decl.body v) :
      PropertyType.Conforms types (.reference name) v
  | object {o : ObjectType} {v : Json} (hv : ObjectType.Conforms types o v) :
      PropertyType.Conforms types (.object o) v

end

variable {types : TypeSet} {label : String} {v : Json}

/-! ## What each requirement gives -/

/-- A list is checked item by item. -/
theorem check_list_array {r : Requirement} {items : List Json} :
    check types (.list r) label (.array items) = items.forM (check types r label) := by
  have hattach : ∀ f : Json → Except Violation Unit,
      items.attach.forM (fun item => f item.1) = items.forM f := by
    intro f
    conv_rhs => rw [← List.attach_map_subtype_val items]
    exact (List.forM_map ..).symm
  rw [check]
  exact hattach _

theorem check_record_of_none {ps : List Property} (h : v.entries? = none) :
    check types (.record ps) label v = .error (.notObject label) := by
  rw [check]
  split
  · rfl
  · next hes => rw [h] at hes; cases hes

/-- A record is checked entry by entry for what is not declared, then property by property. -/
theorem check_record_of_entries {ps : List Property} {es : List (String × Json)}
    (h : v.entries? = some es) :
    check types (.record ps) label v =
      match undeclared? ps es with
      | some e => .error (.extra e.1)
      | none => ps.forM fun p =>
        match entryOf? p.name es with
        | some e => check types (p.requirement types) p.name e.2
        | none => if p.isOptional then .ok () else .error (.missing p.name) := by
  rw [check]
  split
  · next hes => rw [h] at hes; cases hes
  · next es' hes =>
    rw [h, Option.some.injEq] at hes
    subst hes
    cases undeclared? ps es with
    | some e => rfl
    | none =>
      refine congrArg ps.forM (funext fun p => ?_)
      split
      · next he => rw [he]
      · next he => rw [he]

/-! ## What each requirement asks -/

theorem Primitive.admits_iff {kind : Primitive} {v : Json} :
    kind.admits v = true ↔ kind.Admits v := by
  constructor
  · intro h
    unfold admits at h
    split at h
    · exact .boolean _
    · next n =>
      cases n with
      | integer n fits => exact .integer n fits
      | float x => exact .wholeFloat x (Binary64.isIntegral_iff.1 h)
    · exact .float _
    · exact .number _
    · exact .string _
    · cases h
  · intro h
    cases h with
    | wholeFloat x h => exact Binary64.isIntegral_iff.2 h
    | _ => rfl

theorem check_primitive_iff {kind : Primitive} :
    check types (.primitive kind) label v = .ok () ↔ kind.admits v = true := by
  unfold check
  cases kind.admits v <;> simp

theorem check_unresolved {name : String} :
    check types (.unresolved name) label v ≠ .ok () := by
  unfold check
  simp

theorem check_list_iff {r : Requirement} :
    check types (.list r) label v = .ok () ↔
      ∃ items, v = .array items ∧ ∀ item ∈ items, check types r label item = .ok () := by
  constructor
  · intro h
    cases v with
    | array items =>
      rw [check_list_array, forM_eq_ok_iff] at h
      exact ⟨items, rfl, h⟩
    | _ => simp [check] at h
  · rintro ⟨items, rfl, h⟩
    rw [check_list_array, forM_eq_ok_iff]
    exact h

/-- With an array flag the same is asked of each item of an array. -/
theorem check_listIf_iff {isArray : Bool} {r : Requirement} :
    check types (.listIf isArray r) label v = .ok () ↔
      (isArray = false ∧ check types r label v = .ok ()) ∨
        (isArray = true ∧
          ∃ items, v = .array items ∧ ∀ item ∈ items, check types r label item = .ok ()) := by
  cases isArray with
  | false => simp [Requirement.listIf]
  | true =>
    rw [Requirement.listIf, if_pos rfl, check_list_iff]
    simp

/-- A record asks for entries that are all declared, and of each property that its value meets what
    the property asks, or that it may be missing. -/
theorem check_record_iff {ps : List Property} :
    check types (.record ps) label v = .ok () ↔
      ∃ es, v.entries? = some es ∧ undeclared? ps es = none ∧
        ∀ p ∈ ps, (∀ e, entryOf? p.name es = some e →
          check types (p.requirement types) p.name e.2 = .ok ()) ∧
          (entryOf? p.name es = none → p.isOptional = true) := by
  cases hes : v.entries? with
  | none => simp [check_record_of_none hes]
  | some es =>
    rw [check_record_of_entries hes]
    simp only [Option.some.injEq, exists_eq_left']
    cases undeclared? ps es with
    | some e => simp
    | none =>
      rw [eq_self, true_and, forM_eq_ok_iff]
      refine forall₂_congr fun p _ => ?_
      cases entryOf? p.name es with
      | some e => simp
      | none => cases p.isOptional <;> simp

/-! ## Look-ups -/

theorem undeclared?_eq_none_iff {ps : List Property} {es : List (String × Json)} :
    undeclared? ps es = none ↔ ∀ m ∈ es, ∃ p ∈ ps, p.name = m.1 := by
  simp [undeclared?, List.find?_eq_none]

theorem lookup_eq {name : String} {es : List (String × Json)} :
    es.lookup name = (entryOf? name es).map (·.2) := by
  induction es with
  | nil => rfl
  | cons e es ih =>
    obtain ⟨n, v⟩ := e
    unfold entryOf? at ih ⊢
    rw [List.lookup_cons, List.find?_cons]
    by_cases h : n = name
    · simp [h]
    · have hbeq : (name == n) = false := by simpa using fun he => h he.symm
      simpa [h, hbeq] using ih

theorem entryOf?_eq_none_iff {name : String} {es : List (String × Json)} :
    entryOf? name es = none ↔ ¬ ∃ m ∈ es, m.1 = name := by
  unfold entryOf?
  rw [List.find?_eq_none]
  simp only [decide_eq_true_eq, not_exists, not_and]

/-- What a reference is resolved to is the first type of its name, if it names one. -/
theorem resolve?_eq_some_iff {name : String} {decl : TypeDecl} :
    types.resolve? name = some decl ↔ name ≠ "" ∧ types.First name decl := by
  unfold TypeSet.resolve? TypeSet.First
  split
  · next h => simp [h]
  · next h =>
    rw [List.find?_eq_some_iff_append, and_iff_right h]
    simp only [decide_eq_true_eq, Bool.not_eq_true', decide_eq_false_iff_not]
    constructor
    · rintro ⟨hn, before, after, hs, hb⟩
      exact ⟨before, after, hs, hn, hb⟩
    · rintro ⟨before, after, hs, hn, hb⟩
      exact ⟨hn, before, after, hs, hb⟩

theorem main?_eq_some_iff {decl : TypeDecl} :
    types.main? = some decl ↔ types.First "" decl := by
  unfold TypeSet.main? TypeSet.First
  rw [List.find?_eq_some_iff_append]
  simp only [TypeDecl.isMain, decide_eq_true_eq, Bool.not_eq_true', decide_eq_false_iff_not]
  constructor
  · rintro ⟨hn, before, after, hs, hb⟩
    exact ⟨before, after, hs, hn, hb⟩
  · rintro ⟨before, after, hs, hn, hb⟩
    exact ⟨hn, before, after, hs, hb⟩

theorem shape_iff {ps : List Property} :
    Shape types ps v ↔ ∃ es, v.entries? = some es ∧ MembersConform types ps es := by
  constructor
  · intro h
    cases h with
    | object h => exact ⟨_, rfl, h⟩
    | array h => exact ⟨_, rfl, h⟩
  · rintro ⟨es, hes, h⟩
    unfold Json.entries? at hes
    split at hes <;> cases hes
    · exact .object h
    · exact .array h

theorem ObjectType.conforms_iff {o : ObjectType} :
    o.Conforms types v ↔ (o.isArray = false ∧ Shape types o.properties v) ∨
      (o.isArray = true ∧
        ∃ items, v = .array items ∧ ∀ item ∈ items, Shape types o.properties item) := by
  constructor
  · intro h
    cases h with
    | single ha h => exact .inl ⟨ha, h⟩
    | array ha h => exact .inr ⟨ha, _, rfl, h⟩
  · rintro (⟨ha, h⟩ | ⟨ha, items, rfl, h⟩)
    · exact .single ha h
    · exact .array ha h

theorem Property.conforms_iff {p : Property} :
    p.Conforms types v ↔ (p.isArray = false ∧ p.type.Conforms types v) ∨
      (p.isArray = true ∧
        ∃ items, v = .array items ∧ ∀ item ∈ items, p.type.Conforms types item) := by
  constructor
  · intro h
    cases h with
    | single ha h => exact .inl ⟨ha, h⟩
    | array ha h => exact .inr ⟨ha, _, rfl, h⟩
  · rintro (⟨ha, h⟩ | ⟨ha, items, rfl, h⟩)
    · exact .single ha h
    · exact .array ha h

/-! ## The induction -/

/-- Checking decides conformance to properties at a value. -/
def DecidesProperty (types : TypeSet) (v : Json) : Prop :=
  ∀ (p : Property) (label : String),
    check types (p.requirement types) label v = .ok () ↔ p.Conforms types v

/-- Checking decides conformance to property types at a value. -/
def DecidesType (types : TypeSet) (v : Json) : Prop :=
  ∀ (t : PropertyType) (label : String),
    check types (t.requirement types) label v = .ok () ↔ t.Conforms types v

/-- Checking decides conformance to object types at a value. -/
def DecidesObject (types : TypeSet) (v : Json) : Prop :=
  ∀ (o : ObjectType) (label : String),
    check types o.requirement label v = .ok () ↔ o.Conforms types v

/-- Checking decides whether a value has a shape. -/
def DecidesShape (types : TypeSet) (v : Json) : Prop :=
  ∀ (ps : List Property) (label : String),
    check types (.record ps) label v = .ok () ↔ Shape types ps v

theorem decidesShape (ih : ∀ u : Json, sizeOf u < sizeOf v → DecidesProperty types u) :
    DecidesShape types v := by
  intro ps label
  rw [check_record_iff, shape_iff]
  refine exists_congr fun es => and_congr_right fun hes => ?_
  -- An entry stands in the value, so what it holds is smaller.
  have hp : ∀ {p : Property} {e : String × Json}, entryOf? p.name es = some e →
      (check types (p.requirement types) p.name e.2 = .ok () ↔ p.Conforms types e.2) :=
    fun {p e} he => ih e.2 (Json.sizeOf_entry_lt hes (entryOf?_mem he)) p p.name
  rw [undeclared?_eq_none_iff]
  constructor
  · rintro ⟨hd, hall⟩
    refine .intro hd (fun p hps hreq => ?_) (fun p hps u hu => ?_)
    · have hnone := mt (hall p hps).2 (by simp [hreq])
      exact Decidable.not_not.1 (mt entryOf?_eq_none_iff.2 hnone)
    · rw [lookup_eq, Option.map_eq_some_iff] at hu
      obtain ⟨e, he, rfl⟩ := hu
      exact (hp he).1 ((hall p hps).1 e he)
  · rintro ⟨hd, hreq, hconf⟩
    refine ⟨hd, fun p hps => ⟨fun e he => ?_, fun hnone => ?_⟩⟩
    · have hl : es.lookup p.name = some e.2 := by rw [lookup_eq, he]; rfl
      exact (hp he).2 (hconf p hps e.2 hl)
    · refine Bool.not_eq_false _ |>.mp fun hopt => ?_
      exact entryOf?_eq_none_iff.1 hnone (hreq p hps hopt)

theorem decidesObject (hv : DecidesShape types v)
    (ih : ∀ u : Json, sizeOf u < sizeOf v → DecidesShape types u) : DecidesObject types v := by
  intro o label
  rw [ObjectType.requirement, check_listIf_iff, ObjectType.conforms_iff]
  refine or_congr (and_congr_right fun _ => hv o.properties label) (and_congr_right fun _ => ?_)
  -- With the flag the shape is asked of the items, which are smaller.
  refine exists_congr fun items => and_congr_right ?_
  rintro rfl
  exact forall₂_congr fun u hu => ih u (Json.sizeOf_item_lt hu) o.properties label

theorem decidesType (hv : DecidesObject types v) : DecidesType types v := by
  intro t label
  cases t with
  | primitive kind =>
    rw [PropertyType.requirement, check_primitive_iff, Primitive.admits_iff]
    constructor
    · exact .primitive
    · intro h
      cases h with
      | primitive h => exact h
  | object o =>
    rw [PropertyType.requirement, hv o label]
    constructor
    · exact .object
    · intro h
      cases h with
      | object h => exact h
  | reference name =>
    rw [PropertyType.requirement]
    cases hr : types.resolve? name with
    | some decl =>
      rw [hv decl.body label]
      obtain ⟨hne, hf⟩ := resolve?_eq_some_iff.1 hr
      constructor
      · exact .reference hne hf
      · intro h
        cases h with
        | reference hne' hf' h =>
          have := resolve?_eq_some_iff.2 ⟨hne', hf'⟩
          rw [hr, Option.some.injEq] at this
          exact this ▸ h
    | none =>
      refine iff_of_false check_unresolved fun h => ?_
      cases h with
      | reference hne hf _ =>
        rw [resolve?_eq_some_iff.2 ⟨hne, hf⟩] at hr
        cases hr

theorem decidesProperty (hv : DecidesType types v)
    (ih : ∀ u : Json, sizeOf u < sizeOf v → DecidesType types u) : DecidesProperty types v := by
  intro p label
  rw [Property.requirement, check_listIf_iff, Property.conforms_iff]
  refine or_congr (and_congr_right fun _ => hv p.type label) (and_congr_right fun _ => ?_)
  refine exists_congr fun items => and_congr_right ?_
  rintro rfl
  exact forall₂_congr fun u hu => ih u (Json.sizeOf_item_lt hu) p.type label

theorem decides (types : TypeSet) (v : Json) :
    DecidesShape types v ∧ DecidesObject types v ∧ DecidesType types v ∧
      DecidesProperty types v := by
  -- The value gets smaller where the schema may not: a reference can lead back to its own type.
  induction h : sizeOf v using Nat.strongRecOn generalizing v with
  | ind n ih =>
    subst h
    have hs := decidesShape fun u hu => (ih _ hu u rfl).2.2.2
    have ho := decidesObject hs fun u hu => (ih _ hu u rfl).1
    have ht := decidesType ho
    exact ⟨hs, ho, ht, decidesProperty ht fun u hu => (ih _ hu u rfl).2.2.1⟩

/-- **A value passes exactly if the schema has a main type and the value conforms to the first.** -/
theorem TypeSet.check_eq_ok_iff (types : TypeSet) (v : Json) :
    types.check v = .ok () ↔ ∃ main, types.First "" main ∧ main.body.Conforms types v := by
  unfold TypeSet.check
  cases hm : types.main? with
  | none =>
    refine iff_of_false (by simp) ?_
    rintro ⟨main, hf, -⟩
    rw [main?_eq_some_iff.2 hf] at hm
    cases hm
  | some main =>
    have hf := main?_eq_some_iff.1 hm
    rw [(decides types v).2.1 main.body rootLabel]
    constructor
    · intro h
      exact ⟨main, hf, h⟩
    · rintro ⟨main', hf', h⟩
      have := main?_eq_some_iff.2 hf'
      rw [hm, Option.some.injEq] at this
      exact this ▸ h

end TypedFlags.Schema
