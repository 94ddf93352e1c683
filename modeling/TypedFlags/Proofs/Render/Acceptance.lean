import TypedFlags.Proofs.Render.Determined
import TypedFlags.Proofs.Schema.Conformance
/-!
# Validator expressions against checks

What a validator expression accepts is said of the expression alone (`Render.Accepts`): of the term
that its text spells, by what Zod's functions do. A schema's check goes over the schema. **The two
agree, but for what the expression does not say**: it lets keys through that are not declared, and
anything where a reference stands (`TypeSet.validator_agrees`).

Apart from that they differ at one place. A check reads an array in place of an object as an object,
and an expression does not, so what passes is accepted only where no array stands in such a place. What
stands in which place is `Faces`, which follows a schema and a value side by side.
-/

set_option autoImplicit false

namespace TypedFlags.Render

/-! ## What expressions accept -/

/-- A value is accepted by an expression. An object has to have an accepted value under each key of
    the record, except where the field is optional or accepts anything; it may have other keys. -/
inductive Accepts : Term Scalar → Json → Prop
  | boolean (b : Bool) : Accepts (.leaf .boolean) (.bool b)
  | number (n : Json.Number) : Accepts (.leaf .number) (.number n)
  | integer (n : Int) (fits : Json.Fits n) : Accepts (.leaf .integer) (.number (.integer n fits))
  | wholeFloat (x : Binary64) (h : x.Whole) : Accepts (.leaf .integer) (.number (.float x))
  | string (s : String) : Accepts (.leaf .string) (.string s)
  | any (v : Json) : Accepts (.leaf .any) v
  | array {item : Term Scalar} {items : List Json} (h : ∀ v ∈ items, Accepts item v) :
      Accepts (.array item) (.array items)
  | record {fields : List (TermField Scalar)} {members : List (String × Json)}
      (present : ∀ f ∈ fields, ∀ v, members.lookup f.name = some v → Accepts f.type v)
      (absent : ∀ f ∈ fields, members.lookup f.name = none →
        f.isOptional = true ∨ f.type = .leaf .any) :
      Accepts (.record fields) (.object members)

/-- An expression is spelled by a text. -/
structure Term.Spells (e : Term Scalar) (text : String) : Prop where
  legible : e.Legible fun _ => True
  text : validatorStyle.text e = text.toList

/-- A text spells one expression at most. -/
theorem Term.Spells.eq {e f : Term Scalar} {text : String} (he : e.Spells text)
    (hf : f.Spells text) : e = f :=
  validatorStyle_lawful.text_inj endsExpression_nil he.legible hf.legible
    (he.text.trans hf.text.symm)

theorem accepts_record_iff {fields : List (TermField Scalar)} {v : Json} :
    Accepts (.record fields) v ↔ ∃ members, v = .object members ∧ ∀ f ∈ fields,
      (∀ u, members.lookup f.name = some u → Accepts f.type u) ∧
        (members.lookup f.name = none → f.isOptional = true ∨ f.type = .leaf .any) := by
  constructor
  · intro h
    cases h with
    | record present absent => exact ⟨_, rfl, fun f hf => ⟨present f hf, absent f hf⟩⟩
  · rintro ⟨members, rfl, h⟩
    exact .record (fun f hf => (h f hf).1) (fun f hf => (h f hf).2)

end TypedFlags.Render

namespace TypedFlags.Schema

open Render (Term TermField Scalar Accepts validatorLeaves accepts_record_iff)

theorem accepts_arrayIf_iff {isArray : Bool} {e : Term Scalar} {v : Json} :
    Accepts (arrayIf isArray e) v ↔ (isArray = false ∧ Accepts e v) ∨
      (isArray = true ∧ ∃ items, v = .array items ∧ ∀ item ∈ items, Accepts e item) := by
  cases isArray with
  | false => simp [arrayIf]
  | true =>
    constructor
    · intro h
      cases h with
      | array h => exact .inr ⟨rfl, _, rfl, h⟩
    · rintro (⟨h, -⟩ | ⟨-, items, rfl, h⟩)
      · cases h
      · exact .array h

theorem Primitive.accepts_iff {kind : Primitive} {v : Json} :
    Accepts (.leaf (validatorLeaves.primitive kind)) v ↔ kind.Admits v := by
  constructor
  · intro h
    cases kind <;> cases h <;> (constructor; try assumption)
  · intro h
    cases h <;> (constructor; try assumption)

/-! ## Which value stands in which place -/

/-- In a value that is held against the requirement `r`, the value `u` is held against `r'`. -/
inductive Faces (types : TypeSet) : Requirement → Json → Requirement → Json → Prop
  | here (r : Requirement) (v : Json) : Faces types r v r v
  | item {r r' : Requirement} {items : List Json} {v u : Json} (hv : v ∈ items)
      (h : Faces types r v r' u) : Faces types (.list r) (.array items) r' u
  | member {ps : List Property} {p : Property} {members : List (String × Json)} {r' : Requirement}
      {v u : Json} (hp : p ∈ ps) (hv : members.lookup p.name = some v)
      (h : Faces types (p.requirement types) v r' u) :
      Faces types (.record ps) (.object members) r' u

variable {types : TypeSet} {Q : List Property → Json → Prop}

/-- Wherever a record of properties is asked for, a condition holds of the properties and of the value
    that stands there. -/
def Requirement.Everywhere (types : TypeSet) (Q : List Property → Json → Prop) (r : Requirement)
    (v : Json) : Prop :=
  ∀ ps u, Faces types r v (.record ps) u → Q ps u

/-- The value that stands in place of an object is no array. -/
def NotArray (_ : List Property) (u : Json) : Prop := ∀ items, u ≠ .array items

/-- The keys of an object are all declared. -/
def KeysDeclared (ps : List Property) (u : Json) : Prop :=
  ∀ members, u = .object members → ∀ m ∈ members, ∃ p ∈ ps, p.name = m.1

/-- The properties of an object type are written out, none of them as a reference. -/
def ObjectType.NoReference (o : ObjectType) : Prop :=
  ∀ p ∈ o.properties, ∀ name, p.type ≠ .reference name

namespace Requirement

theorem everywhere_primitive {kind : Primitive} {v : Json} :
    Everywhere types Q (.primitive kind) v := by
  intro ps u h
  cases h

theorem everywhere_list_iff {r : Requirement} {items : List Json} :
    Everywhere types Q (.list r) (.array items) ↔ ∀ v ∈ items, Everywhere types Q r v := by
  constructor
  · exact fun h v hv ps u hu => h ps u (.item hv hu)
  · intro h ps u hu
    cases hu with
    | item hv hu => exact h _ hv ps u hu

theorem everywhere_record_iff {ps : List Property} {members : List (String × Json)} :
    Everywhere types Q (.record ps) (.object members) ↔ Q ps (.object members) ∧
      ∀ p ∈ ps, ∀ v, members.lookup p.name = some v →
        Everywhere types Q (p.requirement types) v := by
  constructor
  · intro h
    exact ⟨h ps _ (.here _ _), fun p hp v hv qs u hu => h qs u (.member hp hv hu)⟩
  · rintro ⟨hQ, hmembers⟩ qs u hu
    cases hu with
    | here => exact hQ
    | member hp hv hu => exact hmembers _ hp _ hv qs u hu

end Requirement

open Requirement (Everywhere everywhere_primitive everywhere_list_iff everywhere_record_iff)

/-! ## One level -/

/-- A condition on a value, or on all items of an array. -/
def Layered (isArray : Bool) (A : Json → Prop) (v : Json) : Prop :=
  (isArray = false ∧ A v) ∨ (isArray = true ∧ ∃ items, v = .array items ∧ ∀ item ∈ items, A item)

/-- What follows in a place follows for the items of an array in that place. -/
theorem Layered.imp {isArray : Bool} {r : Requirement} {A B : Json → Prop} {v : Json}
    (h : ∀ u, Everywhere types Q r u → A u → B u)
    (hv : Everywhere types Q (.listIf isArray r) v) (ha : Layered isArray A v) :
    Layered isArray B v := by
  obtain ⟨rfl, ha⟩ | ⟨rfl, items, rfl, ha⟩ := ha
  · exact .inl ⟨rfl, h v hv ha⟩
  · exact .inr ⟨rfl, items, rfl, fun u hu => h u (everywhere_list_iff.1 hv u hu) (ha u hu)⟩

theorem lookup_eq_none_iff {name : String} {members : List (String × Json)} :
    members.lookup name = none ↔ ¬ ∃ m ∈ members, m.1 = name := by
  rw [lookup_eq, Option.map_eq_none_iff, entryOf?_eq_none_iff]

/-- Where properties of the given types accept what conforms to them, so does their record. -/
theorem accepts_of_shape {ps : List Property} {v : Json}
    (h : ∀ p ∈ ps, ∀ u, Everywhere types NotArray (p.requirement types) u →
      p.Conforms types u → Accepts (p.field validatorLeaves).type u)
    (hv : Everywhere types NotArray (.record ps) v) (hs : Shape types ps v) :
    Accepts (.record (ps.map (Property.field validatorLeaves))) v := by
  cases hs with
  | array _ => exact absurd rfl (hv ps _ (.here _ _) _)
  | object hs =>
    obtain ⟨-, hrequired, hconform⟩ := hs
    have hmember := (everywhere_record_iff.1 hv).2
    refine .record ?_ ?_ <;> rw [List.forall_mem_map] <;> intro p hp
    · intro u hu
      rw [p.field_eq] at hu
      exact h p hp u (hmember p hp u hu) (hconform p hp u hu)
    · intro hnone
      rw [p.field_eq] at hnone ⊢
      refine .inl (Bool.not_eq_false _ |>.mp fun hopt => ?_)
      exact lookup_eq_none_iff.1 hnone (hrequired p hp hopt)

/-- Only references are rendered as the expression that accepts a missing key. -/
theorem Property.field_type_ne_any {p : Property} (h : ∀ name, p.type ≠ .reference name) :
    (p.field validatorLeaves).type ≠ .leaf .any := by
  obtain ⟨name, isOptional, isArray, type⟩ := p
  rw [Property.field_eq]
  cases isArray with
  | true => intro he; cases he
  | false =>
    cases type with
    | primitive kind => cases kind <;> intro he <;> cases he
    | reference n => exact absurd rfl (h n)
    | object o =>
      intro he
      rw [arrayIf, if_neg (by simp), PropertyType.term_object] at he
      exact arrayIf_record_ne_leaf he

/-- Where only conforming values are accepted for properties, and no keys are there but those
    declared, only what has the shape of the properties is accepted by their record. -/
theorem shape_of_accepts {ps : List Property} {v : Json}
    (h : ∀ p ∈ ps, ∀ u, Everywhere types KeysDeclared (p.requirement types) u →
      Accepts (p.field validatorLeaves).type u → p.Conforms types u)
    (hps : ∀ p ∈ ps, ∀ name, p.type ≠ .reference name)
    (hv : Everywhere types KeysDeclared (.record ps) v)
    (ha : Accepts (.record (ps.map (Property.field validatorLeaves))) v) : Shape types ps v := by
  rw [accepts_record_iff] at ha
  obtain ⟨members, rfl, ha⟩ := ha
  rw [List.forall_mem_map] at ha
  obtain ⟨hkeys, hmember⟩ := everywhere_record_iff.1 hv
  refine .object (.intro (hkeys members rfl) ?_ ?_)
  · intro p hp hopt
    by_contra hnone
    rcases (ha p hp).2 (by rw [p.field_eq]; exact lookup_eq_none_iff.2 hnone) with ho | hany
    · rw [p.field_eq, hopt] at ho
      cases ho
    · exact Property.field_type_ne_any (hps p hp) hany
  · intro p hp u hu
    exact h p hp u (hmember p hp u hu) ((ha p hp).1 u (by rw [p.field_eq]; exact hu))

/-! ## All levels -/

theorem Property.accepts_of_conforms {p : Property}
    (h : ∀ u, Everywhere types NotArray (p.type.requirement types) u → p.type.Conforms types u →
      Accepts (p.type.term validatorLeaves) u) {v : Json}
    (hv : Everywhere types NotArray (p.requirement types) v) (hc : p.Conforms types v) :
    Accepts (p.field validatorLeaves).type v := by
  rw [p.field_eq]
  exact accepts_arrayIf_iff.2 (Layered.imp h hv (Property.conforms_iff.1 hc))

theorem Property.conforms_of_accepts {p : Property}
    (h : ∀ u, Everywhere types KeysDeclared (p.type.requirement types) u →
      Accepts (p.type.term validatorLeaves) u → p.type.Conforms types u) {v : Json}
    (hv : Everywhere types KeysDeclared (p.requirement types) v)
    (ha : Accepts (p.field validatorLeaves).type v) : p.Conforms types v := by
  rw [p.field_eq] at ha
  exact Property.conforms_iff.2 (Layered.imp h hv (accepts_arrayIf_iff.1 ha))

theorem ObjectType.accepts_of_conforms {o : ObjectType}
    (h : ∀ p ∈ o.properties, ∀ u, Everywhere types NotArray (p.type.requirement types) u →
      p.type.Conforms types u → Accepts (p.type.term validatorLeaves) u) {v : Json}
    (hv : Everywhere types NotArray o.requirement v) (hc : o.Conforms types v) :
    Accepts (o.term validatorLeaves) v := by
  rw [o.term_eq]
  have hrecord : ∀ u, Everywhere types NotArray (.record o.properties) u →
      Shape types o.properties u → Accepts (.record (o.properties.map (Property.field _))) u :=
    fun _ => accepts_of_shape fun p hp _ => Property.accepts_of_conforms (h p hp)
  exact accepts_arrayIf_iff.2 (Layered.imp hrecord hv (ObjectType.conforms_iff.1 hc))

theorem ObjectType.conforms_of_accepts {o : ObjectType} (ho : o.NoReference)
    (h : ∀ p ∈ o.properties, ∀ u, Everywhere types KeysDeclared (p.type.requirement types) u →
      Accepts (p.type.term validatorLeaves) u → p.type.Conforms types u) {v : Json}
    (hv : Everywhere types KeysDeclared o.requirement v) (ha : Accepts (o.term validatorLeaves) v) :
    o.Conforms types v := by
  rw [o.term_eq] at ha
  have hrecord : ∀ u, Everywhere types KeysDeclared (.record o.properties) u →
      Accepts (.record (o.properties.map (Property.field _))) u → Shape types o.properties u :=
    fun _ => shape_of_accepts (fun p hp _ => Property.conforms_of_accepts (h p hp)) ho
  exact ObjectType.conforms_iff.2 (Layered.imp hrecord hv (accepts_arrayIf_iff.1 ha))

/-- What conforms is accepted. References need not be followed for that: they accept anything. -/
theorem PropertyType.accepts_of_conforms (t : PropertyType) : ∀ v,
    Everywhere types NotArray (t.requirement types) v → t.Conforms types v →
      Accepts (t.term validatorLeaves) v := by
  induction t using PropertyType.induction_on_objects with
  | primitive kind =>
    intro v _ hc
    cases hc with
    | primitive h => exact Primitive.accepts_iff.2 h
  | reference name => exact fun v _ _ => .any v
  | object o ih =>
    intro v hv hc
    cases hc with
    | object hc => exact ObjectType.accepts_of_conforms ih hv hc

/-- What is accepted conforms, where no reference and no key gives more room. -/
theorem PropertyType.conforms_of_accepts (t : PropertyType) (ht : t.Throughout ObjectType.NoReference)
    (hname : ∀ name, t ≠ .reference name) : ∀ v,
    Everywhere types KeysDeclared (t.requirement types) v → Accepts (t.term validatorLeaves) v →
      t.Conforms types v := by
  induction t using PropertyType.induction_on_objects with
  | primitive kind => exact fun v _ ha => .primitive (Primitive.accepts_iff.1 ha)
  | reference name => exact absurd rfl (hname name)
  | object o ih =>
    intro v hv ha
    rw [throughout_object, ObjectType.throughout_iff] at ht
    refine .object (ObjectType.conforms_of_accepts ht.1 (fun p hp => ?_) hv ha)
    exact ih p hp (ht.2 p hp) (ht.1 p hp)

/-- **The validator expression of a schema that was read from text agrees with the check.** The text
    spells one expression. A value that passes the check is accepted by it, if no array stands in place
    of a single object; and a value that it accepts passes the check, if the schema's main type has no
    reference at any depth and the value no undeclared key in any object. -/
theorem TypeSet.validator_agrees {text : String} {T : TypeSet} {main : TypeDecl}
    (h : TypeSet.ofText text = .ok T) (hm : T.main? = some main) :
    (∃! e : Term Scalar, e.Spells T.validator) ∧ ∀ e : Term Scalar, e.Spells T.validator → ∀ v,
      (main.body.requirement.Everywhere T NotArray v → T.check v = .ok () → Accepts e v) ∧
      (main.body.Throughout ObjectType.NoReference →
        main.body.requirement.Everywhere T KeysDeclared v → Accepts e v → T.check v = .ok ()) := by
  have hspells : (main.body.term validatorLeaves).Spells T.validator := by
    refine ⟨ObjectType.legible_validator (T.readable_main h hm), ?_⟩
    rw [TypeSet.validator, hm, main.body.toList_validator]
  have hcheck : ∀ v, T.check v = .ok () ↔ main.body.Conforms T v := by
    intro v
    rw [TypeSet.check, hm]
    exact (decides T v).2.1 main.body rootLabel
  refine ⟨⟨_, hspells, fun e he => he.eq hspells⟩, fun e he v => ?_⟩
  rw [he.eq hspells, hcheck v]
  constructor
  · exact ObjectType.accepts_of_conforms fun p _ => p.type.accepts_of_conforms
  · intro hnone hkeys
    rw [ObjectType.throughout_iff] at hnone
    exact ObjectType.conforms_of_accepts hnone.1
      (fun p hp => p.type.conforms_of_accepts (hnone.2 p hp) (hnone.1 p hp)) hkeys

/-- A whole number written with a point, and an object in an array. -/
theorem TypeSet.validator_agrees_rows :
    let row : List Property := [⟨"x", false, false, .primitive .float⟩]
    let main : TypeDecl := ⟨"", ⟨[⟨"n", false, false, .primitive .integer⟩,
      ⟨"rows", true, false, .object ⟨row, true⟩⟩], false⟩⟩
    let two : Json := .number (.float ⟨false, 0x10000000000000, -51, by decide⟩)
    let v : Json := .object [("n", two), ("rows", .array [.object [("x", two)]])]
    TypeSet.ofText "\x7b n: integer, rows?: \x7b x: float \x7d[] \x7d" = .ok ⟨[main]⟩ ∧
      ∃ e : Term Scalar, e.Spells (TypeSet.validator ⟨[main]⟩) ∧
        TypeSet.check ⟨[main]⟩ v = .ok () ∧ Accepts e v := by
  intro row main two v
  have h : TypeSet.ofText "\x7b n: integer, rows?: \x7b x: float \x7d[] \x7d" = .ok ⟨[main]⟩ :=
    toOption_eq_some_iff.1 (by decide +kernel)
  have hcheck : TypeSet.check ⟨[main]⟩ v = .ok () := toOption_eq_some_iff.1 (by decide +kernel)
  have hobject : ∀ ps members, NotArray ps (.object members) := by
    rintro ps members items ⟨⟩
  have hrow : Everywhere ⟨[main]⟩ NotArray (.record row) (.object [("x", two)]) := by
    refine everywhere_record_iff.2 ⟨hobject _ _, fun p hp u _ => ?_⟩
    obtain rfl := List.mem_singleton.1 hp
    exact everywhere_primitive
  have hv : Everywhere ⟨[main]⟩ NotArray main.body.requirement v := by
    refine everywhere_record_iff.2 ⟨hobject _ _, fun p hp u hu => ?_⟩
    obtain rfl | rfl : p = _ ∨ p = _ := by simpa [main] using hp
    · exact everywhere_primitive
    · obtain rfl : Json.array [.object [("x", two)]] = u := Option.some.inj hu
      exact everywhere_list_iff.2 (List.forall_mem_singleton.2 hrow)
  have hmain : TypeSet.main? ⟨[main]⟩ = some main := rfl
  obtain ⟨⟨e, he, -⟩, hagrees⟩ := TypeSet.validator_agrees h hmain
  exact ⟨h, e, he, hcheck, (hagrees e he v).1 hv hcheck⟩

end TypedFlags.Schema
