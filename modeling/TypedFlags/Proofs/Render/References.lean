import TypedFlags.Proofs.Render.Determined
/-!
# References in declarations

A declaration is text, and the names in it have to be declared beside it. Which names these are can be
told from the text, because it spells one term: they are the words at the leaves that are no keywords
(`Render.RefersTo`). **They are the names that the object type refers to**
(`ObjectType.refersTo_declaration_iff`).

A declaration that is a single word refers to nothing. It is the word for a primitive kind, or the
`object` that stands for a type that is not known, and a schema may well declare a type of that name.
-/

set_option autoImplicit false

namespace TypedFlags.Render

open Schema (IsName isWordStart)

/-! ## Leaves -/

section
variable {α : Type} {a b : α}

/-- A term has a leaf, at any depth. -/
inductive Term.HasLeaf (a : α) : Term α → Prop
  | leaf : HasLeaf a (.leaf a)
  | array {item : Term α} (h : HasLeaf a item) : HasLeaf a (.array item)
  | record {fields : List (TermField α)} {f : TermField α} (hf : f ∈ fields) (h : HasLeaf a f.type) :
    HasLeaf a (.record fields)

@[simp] theorem Term.hasLeaf_leaf : (Term.leaf b).HasLeaf a ↔ b = a := by
  constructor
  · intro h
    cases h with
    | leaf => rfl
  · intro h
    rw [h]
    exact .leaf

@[simp] theorem Term.hasLeaf_array {item : Term α} : (Term.array item).HasLeaf a ↔ item.HasLeaf a := by
  constructor
  · intro h
    cases h with
    | array h => exact h
  · exact .array

@[simp] theorem Term.hasLeaf_record {fields : List (TermField α)} :
    (Term.record fields).HasLeaf a ↔ ∃ f ∈ fields, f.type.HasLeaf a := by
  constructor
  · intro h
    cases h with
    | record hf h => exact ⟨_, hf, h⟩
  · intro h
    obtain ⟨f, hf, h⟩ := h
    exact .record hf h

end

/-! ## Declarations as texts -/

/-- A text is the declaration that a term is spelled as. -/
structure Spells (declaration : String) (t : Term String) : Prop where
  legible : t.Legible IsWord
  text : declaration.toList = declarationStyle.text t

/-- The text of a declaration refers to a name: it spells a term with that name at a leaf inside of
    it. -/
def RefersTo (declaration name : String) : Prop :=
  IsName name ∧ ∃ t, Spells declaration t ∧ t ≠ .leaf name ∧ t.HasLeaf name

section
variable {declaration name : String} {t u : Term String}

theorem Spells.unique (ht : Spells declaration t) (hu : Spells declaration u) : t = u :=
  declarationStyle_lawful.text_inj endsType_nil ht.legible hu.legible (ht.text.symm.trans hu.text)

theorem Spells.refersTo_iff (h : Spells declaration t) :
    RefersTo declaration name ↔ IsName name ∧ t ≠ .leaf name ∧ t.HasLeaf name := by
  refine and_congr_right fun _ => ?_
  constructor
  · intro hrefers
    obtain ⟨u, hu, hleaf⟩ := hrefers
    rwa [h.unique hu]
  · intro hleaf
    exact ⟨t, h, hleaf⟩

/-- A single word refers to nothing. -/
theorem not_refersTo_word {word : String} (h : IsWord word) : ¬ RefersTo word name := by
  have hspells : Spells word (.leaf word) := ⟨.leaf h, rfl⟩
  rw [hspells.refersTo_iff]
  intro hrefers
  obtain ⟨-, hne, hleaf⟩ := hrefers
  exact hne (congrArg _ (Term.hasLeaf_leaf.1 hleaf))

/-- A declaration starts with a word or with an open record. -/
theorem Spells.head (h : Spells declaration t) :
    ∃ c cs, declaration.toList = c :: cs ∧ (isWordStart c = true ∨ c = '\x7b') := by
  obtain ⟨hlegible, htext⟩ := h
  rw [htext]
  cases hlegible with
  | leaf hword =>
    obtain ⟨c, cs, hcs, hc, -⟩ := hword
    exact ⟨c, cs, hcs, .inl hc⟩
  | array => exact ⟨_, _, rfl, .inl (by decide)⟩
  | @record fields _ _ => cases fields <;> exact ⟨_, _, rfl, .inr rfl⟩

theorem Spells.of_array (h : Spells ("Array<" ++ declaration ++ ">") t) :
    ∃ item, t = .array item ∧ Spells declaration item := by
  obtain ⟨hlegible, htext⟩ := h
  have hshape : declarationStyle.text t =
      declarationStyle.openArray ++ (declaration.toList ++ declarationStyle.closeArray) := by
    rw [← htext]
    simp [declarationStyle]
  cases hlegible with
  | @leaf word hword =>
    have hbare : declarationStyle.leaf word ++ [] = declarationStyle.openArray ++
        (declaration.toList ++ declarationStyle.closeArray) := by
      rw [List.append_nil]
      exact hshape
    exact absurd hbare (declarationStyle_lawful.leaf_ne_array hword endsType_nil)
  | @array item hitem =>
    rw [Style.text] at hshape
    have hinner := List.append_cancel_right (List.append_cancel_left hshape)
    exact ⟨item, rfl, hitem, hinner.symm⟩
  | @record fields _ _ => cases fields <;> cases hshape

end

end TypedFlags.Render

namespace TypedFlags.Schema

open Render (Spells RefersTo IsWord declarationLeaves)

/-! ## References of object types -/

/-- An object type refers to a name: one of its properties does, or one of an object inside of it. -/
def ObjectType.RefersTo (o : ObjectType) (name : String) : Prop :=
  ∃ q, o.Contains q ∧ ∃ p ∈ q.properties, p.type = .reference name

/-- A type set declares every name that it refers to. -/
def TypeSet.Closed (T : TypeSet) : Prop :=
  ∀ p, T.HasProperty p → ∀ name, p.type = .reference name → ∃ decl ∈ T.named, decl.name = name

variable {name : String}

theorem ObjectType.refersTo_iff {o : ObjectType} : o.RefersTo name ↔
    ∃ p ∈ o.properties, p.type = .reference name ∨ ∃ i, p.type = .object i ∧ i.RefersTo name := by
  constructor
  · rintro ⟨q, hq, p, hp, ht⟩
    cases hq with
    | self => exact ⟨p, hp, .inl ht⟩
    | inner hp' hi hq => exact ⟨_, hp', .inr ⟨_, hi, q, hq, p, hp, ht⟩⟩
  · rintro ⟨p, hp, ht | ⟨i, hi, q, hq, hrefers⟩⟩
    · exact ⟨o, .self o, p, hp, ht⟩
    · exact ⟨q, .inner hp hi hq, hrefers⟩

theorem hasLeaf_arrayIf {α : Type} {a : α} {isArray : Bool} {t : Render.Term α} :
    (arrayIf isArray t).HasLeaf a ↔ t.HasLeaf a := by
  cases isArray <;> simp [arrayIf]

theorem ObjectType.hasLeaf_term {α : Type} {a : α} {leaves : Render.Leaves α} {o : ObjectType} :
    (o.term leaves).HasLeaf a ↔ ∃ p ∈ o.properties, (p.type.term leaves).HasLeaf a := by
  rw [o.term_eq, hasLeaf_arrayIf, Render.Term.hasLeaf_record]
  simp [Property.field_eq, hasLeaf_arrayIf]

/-- The names at the leaves of what is rendered are the names that are referred to. The words of the
    primitive kinds are no names. -/
theorem PropertyType.hasLeaf_term_iff (hn : IsName name) {t : PropertyType} (ht : t.Legible)
    (hr : t.Throughout ObjectType.Readable) : (t.term declarationLeaves).HasLeaf name ↔
      t = .reference name ∨ ∃ o, t = .object o ∧ o.RefersTo name := by
  induction t using PropertyType.induction_on_objects with
  | primitive k =>
    have hne : declarationLeaves.primitive k ≠ name :=
      declarationLeaves_determined.primitive_ne_reference k name ht hn
    simpa [term] using hne
  | reference n => simp [term, declarationLeaves]
  | object o ih =>
    rw [throughout_object, ObjectType.throughout_iff] at hr
    have hleaf : (o.term declarationLeaves).HasLeaf name ↔ o.RefersTo name := by
      rw [ObjectType.hasLeaf_term, ObjectType.refersTo_iff]
      refine exists_congr fun p => and_congr_right fun hp => ?_
      exact ih p hp (hr.1.legible p hp).type (hr.2 p hp)
    simpa [term] using hleaf

theorem ObjectType.spells_declaration {o : ObjectType} (hr : o.Throughout Readable) :
    Spells o.declaration (o.term declarationLeaves) :=
  ⟨o.legible_declaration hr, o.toList_declaration⟩

theorem ObjectType.isName_of_refersTo {o : ObjectType} (hr : o.Throughout Readable)
    (h : o.RefersTo name) : IsName name := by
  obtain ⟨q, hq, p, hp, ht⟩ := h
  have hlegible := ((hr q hq).legible p hp).type
  rwa [ht] at hlegible

/-- **A declaration refers to the names that the object type refers to.** -/
theorem ObjectType.refersTo_declaration_iff {o : ObjectType} (hr : o.Throughout Readable) :
    Render.RefersTo o.declaration name ↔ o.RefersTo name := by
  have hleaf (hn : IsName name) : (o.term declarationLeaves).HasLeaf name ↔ o.RefersTo name := by
    simpa [PropertyType.term] using PropertyType.hasLeaf_term_iff (t := .object o) hn trivial
      (PropertyType.throughout_object.2 hr)
  rw [(o.spells_declaration hr).refersTo_iff]
  constructor
  · intro h
    obtain ⟨hn, -, h⟩ := h
    exact (hleaf hn).1 h
  · intro h
    have hn := o.isName_of_refersTo hr h
    refine ⟨hn, ?_, (hleaf hn).2 h⟩
    rw [o.term_eq]
    exact arrayIf_record_ne_leaf

theorem TypeSet.refersTo_declaration {text : String} {T : TypeSet} {decl : TypeDecl}
    (hT : TypeSet.ofText text = .ok T) (hd : decl ∈ T.types)
    (h : Render.RefersTo decl.body.declaration name) : decl.body.RefersTo name :=
  (ObjectType.refersTo_declaration_iff (T.readable_of_ofText hT decl hd)).1 h

end TypedFlags.Schema
