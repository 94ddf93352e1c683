import TypedFlags.Proofs.Render.Style
import TypedFlags.Proofs.Schema.WellFormed
/-!
# What a rendered schema determines

A type declaration and a validator expression say all there is about a schema, except for their
leaves: a declaration has one word for the three numeric kinds, and an expression takes floats for
numbers and every reference for any other (`TypeSet.rendered_eq_iff`).

Two facts are used of a schema that was read from text, and both are needed. Its names are words and
no keywords, so that a reference is not taken for a primitive kind (`ObjectType.Legible`). And where
two array flags meet, that of the object is set before that of the property
(`ObjectType.ObjectFirst`), so that **the number of arrays around an object tells both flags**
(`Property.arrayIf_inj`).
-/

set_option autoImplicit false

namespace TypedFlags.Schema

open Render (Term TermField Leaves Scalar IsWord declarationStyle validatorStyle declarationLeaves
  validatorLeaves declarationStyle_lawful validatorStyle_lawful endsType_nil endsExpression_nil)

/-! ## Schemas with other leaves -/

mutual

/-- An object type with the kinds and the references in it replaced. -/
def ObjectType.mapLeaves (kind : Primitive → Primitive) (name : String → String) :
    ObjectType → ObjectType
  | ⟨ps, isArray⟩ => ⟨Property.mapLeavesList kind name ps, isArray⟩
termination_by structural o => o

def Property.mapLeavesList (kind : Primitive → Primitive) (name : String → String) :
    List Property → List Property
  | [] => []
  | p :: ps => p.mapLeaves kind name :: Property.mapLeavesList kind name ps
termination_by structural ps => ps

def Property.mapLeaves (kind : Primitive → Primitive) (name : String → String) :
    Property → Property
  | ⟨propertyName, isOptional, isArray, type⟩ =>
    ⟨propertyName, isOptional, isArray, type.mapLeaves kind name⟩
termination_by structural p => p

def PropertyType.mapLeaves (kind : Primitive → Primitive) (name : String → String) :
    PropertyType → PropertyType
  | .primitive k => .primitive (kind k)
  | .reference n => .reference (name n)
  | .object o => .object (o.mapLeaves kind name)
termination_by structural t => t

end

/-- The kinds of number as one kind. -/
def Primitive.numeric : Primitive → Primitive
  | .integer | .float => .number
  | kind => kind

/-- Floats as numbers. -/
def Primitive.floatAsNumber : Primitive → Primitive
  | .float => .number
  | kind => kind

section
variable {kind : Primitive → Primitive} {name : String → String}

theorem Property.mapLeavesList_eq (ps : List Property) :
    mapLeavesList kind name ps = ps.map (mapLeaves kind name) := by
  induction ps with
  | nil => rfl
  | cons p ps ih => rw [mapLeavesList, ih, List.map_cons]

theorem ObjectType.mapLeaves_eq (o : ObjectType) :
    o.mapLeaves kind name = ⟨o.properties.map (Property.mapLeaves kind name), o.isArray⟩ := by
  cases o
  rw [ObjectType.mapLeaves, Property.mapLeavesList_eq]

theorem Property.mapLeaves_eq (p : Property) : p.mapLeaves kind name =
    ⟨p.name, p.isOptional, p.isArray, p.type.mapLeaves kind name⟩ := by
  cases p
  rfl

/-! ## Terms without the difference -/

variable {α : Type} {leaves : Leaves α}

/-- Leaves tell apart what is still different with the leaves replaced, and nothing else. -/
structure DeterminedBy (leaves : Leaves α) (kind : Primitive → Primitive) (name : String → String) :
    Prop where
  primitive_map : ∀ k, leaves.primitive (kind k) = leaves.primitive k
  primitive_inj : ∀ j k, leaves.primitive j = leaves.primitive k → kind j = kind k
  reference_map : ∀ n, leaves.reference (name n) = leaves.reference n
  reference_inj : ∀ m n, leaves.reference m = leaves.reference n → name m = name n
  primitive_ne_reference : ∀ k n, k ≠ .unrecognized → IsName n →
    leaves.primitive k ≠ leaves.reference n

theorem arrayIf_record_inj {a b : Bool} {fs gs : List (TermField α)}
    (h : arrayIf a (.record fs) = arrayIf b (.record gs)) : a = b ∧ fs = gs := by
  cases a with
  | false =>
    cases b with
    | false => exact ⟨rfl, Term.record.inj h⟩
    | true => cases h
  | true =>
    cases b with
    | false => cases h
    | true => exact ⟨rfl, Term.record.inj (Term.array.inj h)⟩

theorem arrayIf_record_ne_leaf {isArray : Bool} {fs : List (TermField α)} {a : α} :
    arrayIf isArray (.record fs) ≠ .leaf a := by
  cases isArray <;> intro h <;> cases h

theorem PropertyType.term_object (o : ObjectType) : (PropertyType.object o).term leaves =
    arrayIf o.isArray (.record (o.properties.map (Property.field leaves))) :=
  o.term_eq

/-- An array is rendered of a property type only if it is an array of objects. -/
theorem PropertyType.term_eq_array {t : PropertyType} {item : Term α}
    (h : t.term leaves = .array item) : ∃ ps, t = .object ⟨ps, true⟩ ∧
      item = .record (ps.map (Property.field leaves)) := by
  cases t with
  | primitive k => cases h
  | reference n => cases h
  | object o =>
    obtain ⟨ps, isArray⟩ := o
    rw [term_object] at h
    cases isArray with
    | false => cases h
    | true =>
      cases h
      exact ⟨ps, rfl, rfl⟩

/-- A record is rendered only of an object that is no array. -/
theorem PropertyType.term_eq_record {t : PropertyType} {fs : List (TermField α)}
    (h : t.term leaves = .record fs) : ∃ ps, t = .object ⟨ps, false⟩ := by
  cases t with
  | primitive k => cases h
  | reference n => cases h
  | object o =>
    obtain ⟨ps, isArray⟩ := o
    rw [term_object] at h
    cases isArray with
    | false => exact ⟨ps, rfl⟩
    | true => cases h

/-- The array of a property with one more flag than another cannot be the other's: it would be of
    objects whose own flag is not set. -/
theorem Property.arrayIf_ne {p q : Property} (hp : p.ObjectFirst) (hpa : p.isArray = true)
    (hqa : q.isArray = false) :
    arrayIf p.isArray (p.type.term leaves) ≠ arrayIf q.isArray (q.type.term leaves) := by
  rw [hpa, hqa]
  intro h
  obtain ⟨ps, -, hrecord⟩ := PropertyType.term_eq_array h.symm
  obtain ⟨qs, hobject⟩ := PropertyType.term_eq_record hrecord
  cases hp hpa _ hobject

/-- The arrays around the type of a property tell which flags are set. -/
theorem Property.arrayIf_inj {p q : Property} (hp : p.ObjectFirst) (hq : q.ObjectFirst)
    (h : arrayIf p.isArray (p.type.term leaves) = arrayIf q.isArray (q.type.term leaves)) :
    p.isArray = q.isArray ∧ p.type.term leaves = q.type.term leaves := by
  cases hpa : p.isArray <;> cases hqa : q.isArray
  · rw [hpa, hqa] at h
    exact ⟨rfl, h⟩
  · exact absurd h.symm (arrayIf_ne hq hqa hpa)
  · exact absurd h (arrayIf_ne hp hpa hqa)
  · rw [hpa, hqa] at h
    exact ⟨rfl, Term.array.inj h⟩

theorem map_eq_map_of_forall {β γ δ : Type} {f : β → γ} {g : β → δ} {xs ys : List β}
    (h : ∀ x ∈ xs, ∀ y ∈ ys, f x = f y → g x = g y) (hmap : xs.map f = ys.map f) :
    xs.map g = ys.map g := by
  induction xs generalizing ys with
  | nil => rw [List.map_eq_nil_iff.1 hmap.symm]
  | cons x xs ih =>
    cases ys with
    | nil => cases hmap
    | cons y ys =>
      obtain ⟨hhead, htail⟩ := List.cons.inj hmap
      rw [List.map_cons, List.map_cons, h x (by simp) y (by simp) hhead,
        ih (fun x' hx' y' hy' => h x' (by simp [hx']) y' (by simp [hy'])) htail]

/-- One level of a tree, and that the types in it are determined, determine the tree. -/
theorem ObjectType.mapLeaves_eq_of_term_eq {s t : ObjectType} (hs : s.ObjectFirst)
    (ht : t.ObjectFirst)
    (hinner : ∀ p ∈ s.properties, ∀ q ∈ t.properties, p.type.term leaves = q.type.term leaves →
      p.type.mapLeaves kind name = q.type.mapLeaves kind name)
    (h : s.term leaves = t.term leaves) : s.mapLeaves kind name = t.mapLeaves kind name := by
  rw [s.term_eq, t.term_eq] at h
  obtain ⟨hisArray, hfields⟩ := arrayIf_record_inj h
  rw [s.mapLeaves_eq, t.mapLeaves_eq, hisArray]
  congr 1
  refine map_eq_map_of_forall ?_ hfields
  intro p hp q hq hfield
  rw [p.field_eq, q.field_eq, TermField.mk.injEq] at hfield
  obtain ⟨hname, hoptional, harrays⟩ := hfield
  obtain ⟨harray, hterm⟩ := Property.arrayIf_inj (hs p hp) (ht q hq) harrays
  rw [p.mapLeaves_eq, q.mapLeaves_eq, hname, hoptional, harray, hinner p hp q hq hterm]

/-- What the reading of schema text sees to in an object type. -/
structure ObjectType.Readable (o : ObjectType) : Prop where
  legible : o.Legible
  objectFirst : o.ObjectFirst

theorem PropertyType.mapLeaves_eq_of_term_eq (hl : DeterminedBy leaves kind name)
    {s t : PropertyType} (hs : s.Legible) (ht : t.Legible)
    (hsr : s.Throughout ObjectType.Readable) (htr : t.Throughout ObjectType.Readable)
    (h : s.term leaves = t.term leaves) : s.mapLeaves kind name = t.mapLeaves kind name := by
  induction s using PropertyType.induction_on_objects generalizing t with
  | primitive j =>
    cases t with
    | primitive k =>
      rw [mapLeaves, mapLeaves, hl.primitive_inj j k (Term.leaf.inj h)]
    | reference n => exact absurd (Term.leaf.inj h) (hl.primitive_ne_reference j n hs ht)
    | object o =>
      rw [term_object] at h
      exact absurd h.symm arrayIf_record_ne_leaf
  | reference m =>
    cases t with
    | primitive k => exact absurd (Term.leaf.inj h).symm (hl.primitive_ne_reference k m ht hs)
    | reference n =>
      rw [mapLeaves, mapLeaves, hl.reference_inj m n (Term.leaf.inj h)]
    | object o =>
      rw [term_object] at h
      exact absurd h.symm arrayIf_record_ne_leaf
  | object s ih =>
    cases t with
    | primitive k | reference n =>
      rw [term_object] at h
      exact absurd h arrayIf_record_ne_leaf
    | object t =>
      rw [throughout_object, ObjectType.throughout_iff] at hsr htr
      rw [mapLeaves, mapLeaves, ObjectType.mapLeaves_eq_of_term_eq hsr.1.objectFirst
        htr.1.objectFirst (fun p hp q hq => ?_) h]
      exact ih p hp (hsr.1.legible p hp).type (htr.1.legible q hq).type (hsr.2 p hp) (htr.2 q hq)

theorem ObjectType.term_mapLeaves_of (o : ObjectType)
    (h : ∀ p ∈ o.properties, (p.type.mapLeaves kind name).term leaves = p.type.term leaves) :
    (o.mapLeaves kind name).term leaves = o.term leaves := by
  rw [o.mapLeaves_eq, o.term_eq, ObjectType.term_eq, List.map_map]
  congr 2
  refine List.map_congr_left fun p hp => ?_
  rw [Function.comp_apply, Property.field_eq, p.field_eq, p.mapLeaves_eq, h p hp]

theorem PropertyType.term_mapLeaves (hl : DeterminedBy leaves kind name) (t : PropertyType) :
    (t.mapLeaves kind name).term leaves = t.term leaves := by
  induction t using PropertyType.induction_on_objects with
  | primitive k => rw [mapLeaves, term, term, hl.primitive_map]
  | reference n => rw [mapLeaves, term, term, hl.reference_map]
  | object o ih =>
    rw [mapLeaves, term, term]
    exact o.term_mapLeaves_of ih

/-- **A term determines the tree it was made of, but for its leaves.** -/
theorem ObjectType.term_eq_iff (hl : DeterminedBy leaves kind name) {s t : ObjectType}
    (hs : s.Throughout Readable) (ht : t.Throughout Readable) :
    s.term leaves = t.term leaves ↔ s.mapLeaves kind name = t.mapLeaves kind name := by
  constructor
  · intro h
    have hobject := PropertyType.mapLeaves_eq_of_term_eq hl (s := .object s) (t := .object t)
      trivial trivial (PropertyType.throughout_object.2 hs) (PropertyType.throughout_object.2 ht) h
    exact PropertyType.object.inj hobject
  · intro h
    have hterm := fun o : ObjectType => (PropertyType.object o).term_mapLeaves hl
    have hs := hterm s
    have ht := hterm t
    rw [PropertyType.mapLeaves, PropertyType.term, PropertyType.term] at hs ht
    rw [← hs, ← ht, h]

end

/-! ## The leaves of the two texts -/

/-- The declaration of a kind is the keyword of one that can be written as well. -/
theorem Primitive.declaration_eq_keyword {k : Primitive} (h : k ≠ .unrecognized) :
    k.declaration = k.numeric.keyword ∧ k.numeric ≠ .unrecognized := by
  cases k with
  | unrecognized => exact absurd rfl h
  | _ => exact ⟨rfl, by decide⟩

theorem Primitive.keyword_mem_keywords {k : Primitive} (h : k ≠ .unrecognized) :
    k.keyword ∈ keywords := by
  cases k with
  | unrecognized => exact absurd rfl h
  | _ => decide

/-- Declarations have one word for all numbers. -/
theorem declarationLeaves_determined : DeterminedBy declarationLeaves Primitive.numeric id where
  primitive_map k := by cases k <;> rfl
  primitive_inj j k := by cases j <;> cases k <;> decide
  reference_map _ := rfl
  reference_inj _ _ h := h
  primitive_ne_reference k n hk hn h := by
    obtain ⟨hkeyword, hne⟩ := Primitive.declaration_eq_keyword hk
    have hn' : n = k.numeric.keyword := h.symm.trans hkeyword
    exact hn.notKeyword (hn' ▸ Primitive.keyword_mem_keywords hne)

/-- Expressions take floats for numbers, and any reference for another. -/
theorem validatorLeaves_determined :
    DeterminedBy validatorLeaves Primitive.floatAsNumber fun _ => "" where
  primitive_map k := by cases k <;> rfl
  primitive_inj j k := by cases j <;> cases k <;> decide
  reference_map _ := rfl
  reference_inj _ _ _ := rfl
  primitive_ne_reference k n _ _ h := by cases k <;> cases h

/-! ## Terms that can be read off their texts -/

variable {α : Type} {leaves : Leaves α} {Says : α → Prop}

theorem legible_arrayIf {isArray : Bool} {t : Term α} (h : t.Legible Says) :
    (arrayIf isArray t).Legible Says := by
  cases isArray with
  | false => exact h
  | true => exact .array h

theorem ObjectType.legible_term_of {o : ObjectType} (ho : o.Legible)
    (h : ∀ p ∈ o.properties, (p.type.term leaves).Legible Says) :
    (o.term leaves).Legible Says := by
  rw [o.term_eq]
  refine legible_arrayIf (.record ?_ ?_) <;> rw [List.forall_mem_map] <;> intro p hp <;>
    rw [p.field_eq]
  · exact (ho p hp).name.shape
  · exact legible_arrayIf (h p hp)

theorem PropertyType.legible_term (hk : ∀ k, k ≠ .unrecognized → Says (leaves.primitive k))
    (hn : ∀ n, IsName n → Says (leaves.reference n)) {t : PropertyType} (ht : t.Legible)
    (hr : t.Throughout ObjectType.Readable) : (t.term leaves).Legible Says := by
  induction t using PropertyType.induction_on_objects with
  | primitive k => exact .leaf (hk k ht)
  | reference n => exact .leaf (hn n ht)
  | object o ih =>
    rw [throughout_object, ObjectType.throughout_iff] at hr
    exact ObjectType.legible_term_of hr.1.legible fun p hp =>
      ih p hp (hr.1.legible p hp).type (hr.2 p hp)

theorem ObjectType.legible_term (hk : ∀ k, k ≠ .unrecognized → Says (leaves.primitive k))
    (hn : ∀ n, IsName n → Says (leaves.reference n)) {o : ObjectType}
    (hr : o.Throughout Readable) : (o.term leaves).Legible Says :=
  PropertyType.legible_term (t := .object o) hk hn trivial (PropertyType.throughout_object.2 hr)

theorem Primitive.isWord_declaration (k : Primitive) : IsWord k.declaration := by
  have hfallback : IsName fallbackDeclaration := by decide
  by_cases hk : k = .unrecognized
  · subst hk
    exact hfallback.shape
  · obtain ⟨hkeyword, hne⟩ := Primitive.declaration_eq_keyword hk
    rw [hkeyword]
    exact Token.shape_of_isWord (t := .primitive k.numeric) trivial hne

theorem ObjectType.legible_declaration {o : ObjectType} (hr : o.Throughout Readable) :
    (o.term declarationLeaves).Legible IsWord :=
  legible_term (fun k _ => k.isWord_declaration) (fun _ hn => hn.shape) hr

theorem ObjectType.legible_validator {o : ObjectType} (hr : o.Throughout Readable) :
    (o.term validatorLeaves).Legible fun _ => True :=
  legible_term (fun _ _ => trivial) (fun _ _ => trivial) hr

theorem ObjectType.declaration_eq_iff {s t : ObjectType} (hs : s.Throughout Readable)
    (ht : t.Throughout Readable) :
    s.declaration = t.declaration ↔ s.mapLeaves .numeric id = t.mapLeaves .numeric id := by
  rw [← term_eq_iff declarationLeaves_determined hs ht, ← String.toList_inj, s.toList_declaration,
    t.toList_declaration]
  constructor
  · exact declarationStyle_lawful.text_inj endsType_nil (legible_declaration hs)
      (legible_declaration ht)
  · exact congrArg _

theorem ObjectType.validator_eq_iff {s t : ObjectType} (hs : s.Throughout Readable)
    (ht : t.Throughout Readable) :
    s.validator = t.validator ↔
      s.mapLeaves .floatAsNumber (fun _ => "") = t.mapLeaves .floatAsNumber (fun _ => "") := by
  rw [← term_eq_iff validatorLeaves_determined hs ht, ← String.toList_inj, s.toList_validator,
    t.toList_validator]
  constructor
  · exact validatorStyle_lawful.text_inj endsExpression_nil (legible_validator hs)
      (legible_validator ht)
  · exact congrArg _

/-! ## Schemas that were read -/

/-- Every object in a type set that was read from text is readable. -/
theorem TypeSet.readable_of_ofText {text : String} {T : TypeSet}
    (h : TypeSet.ofText text = .ok T) :
    ∀ decl ∈ T.types, decl.body.Throughout ObjectType.Readable := by
  obtain ⟨ls, hls, -, htokens⟩ := TypeSet.ofText_eq_ok_iff.1 h
  obtain ⟨hscans, -, -⟩ := TypeSet.ofTokens_iff_scans.1 htokens
  obtain ⟨⟨-, hyields⟩, hof⟩ := TypeSet.yields_iff_scans.2 hscans
  have hlegible : ∀ t ∈ ls.map (·.token), t.Legible :=
    List.forall_mem_map.2 (legible_of_lexemes hls)
  intro decl hd o ho
  exact ⟨(hyields.legible hlegible decl hd).2 o ho, TypeSet.objectFirst_iff.1 hof decl hd o ho⟩

theorem TypeSet.readable_main {text : String} {T : TypeSet} {main : TypeDecl}
    (h : TypeSet.ofText text = .ok T) (hm : T.main? = some main) :
    main.body.Throughout ObjectType.Readable :=
  T.readable_of_ofText h main (List.mem_of_find?_eq_some hm)

/-- **The rendered texts lose nothing but leaves.** Two schemas have one declaration if their main
    types are the same but for the kinds of number, and one validator expression if they are the
    same but for floats that are numbers and for what references refer to. -/
theorem TypeSet.rendered_eq_iff {text₁ text₂ : String} {T₁ T₂ : TypeSet} {m₁ m₂ : TypeDecl}
    (h₁ : TypeSet.ofText text₁ = .ok T₁) (h₂ : TypeSet.ofText text₂ = .ok T₂)
    (hm₁ : T₁.main? = some m₁) (hm₂ : T₂.main? = some m₂) :
    (T₁.declaration = T₂.declaration ↔
      m₁.body.mapLeaves .numeric id = m₂.body.mapLeaves .numeric id) ∧
    (T₁.validator = T₂.validator ↔ m₁.body.mapLeaves .floatAsNumber (fun _ => "") =
      m₂.body.mapLeaves .floatAsNumber (fun _ => "")) := by
  have hr₁ := T₁.readable_main h₁ hm₁
  have hr₂ := T₂.readable_main h₂ hm₂
  rw [TypeSet.declaration, TypeSet.declaration, TypeSet.validator, TypeSet.validator, hm₁, hm₂]
  exact ⟨ObjectType.declaration_eq_iff hr₁ hr₂, ObjectType.validator_eq_iff hr₁ hr₂⟩

/-- A property called like the array type, both array flags at a property, and a reference: integers
    and numbers have one declaration and two expressions. -/
theorem TypeSet.rendered_eq_iff_numbers :
    let text := fun kind : String => "\x7b Array: " ++ kind ++
      "[], rows?: \x7b x?: float \x7d[][], home: Home \x7d type Home = \x7b\x7d"
    let main := fun kind : Primitive => (⟨"", ⟨[⟨"Array", false, true, .primitive kind⟩,
      ⟨"rows", true, true, .object ⟨[⟨"x", true, false, .primitive .float⟩], true⟩⟩,
      ⟨"home", false, false, .reference "Home"⟩], false⟩⟩ : TypeDecl)
    let types := fun kind : Primitive => (⟨[main kind, ⟨"Home", ⟨[], false⟩⟩]⟩ : TypeSet)
    TypeSet.ofText (text "integer") = .ok (types .integer) ∧
      TypeSet.ofText (text "number") = .ok (types .number) ∧
      (types .integer).declaration = (types .number).declaration ∧
      (types .integer).validator ≠ (types .number).validator := by
  intro text main types
  have h₁ : TypeSet.ofText (text "integer") = .ok (types .integer) :=
    toOption_eq_some_iff.1 (by decide +kernel)
  have h₂ : TypeSet.ofText (text "number") = .ok (types .number) :=
    toOption_eq_some_iff.1 (by decide +kernel)
  have hmain : ∀ kind, (types kind).main? = some (main kind) := fun _ => rfl
  obtain ⟨hdeclaration, hvalidator⟩ :=
    TypeSet.rendered_eq_iff h₁ h₂ (hmain .integer) (hmain .number)
  exact ⟨h₁, h₂, hdeclaration.2 (by decide +kernel), fun h =>
    absurd (hvalidator.1 h) (by decide +kernel)⟩

end TypedFlags.Schema
