import TypedFlags.Schema.Basic
/-!
# Type sets as trees

A type set is a forest of object types: an object stands inside another when a property of that one
is written with it in place. References are leaves. Three things are fixed here for all proofs about
the tree.

* `PropertyType.induction_on_objects` is the induction over it: an object type has a property if
  that follows from the types of its properties having it.
* `ObjectType.Contains` and `TypeSet.HasObject` say which objects there are, at every depth.
* `ObjectType.Throughout` says that a condition holds of an object and of all objects inside it, and
  `ObjectType.throughout_iff` takes it apart by one level.
-/

set_option autoImplicit false

namespace TypedFlags.Schema

/-! ## Induction -/

theorem sizeOf_type_lt {p : Property} {o : ObjectType} (h : p ∈ o.properties) :
    sizeOf p.type < sizeOf (PropertyType.object o) := by
  obtain ⟨ps, isArray⟩ := o
  obtain ⟨name, isOptional, isArray', type⟩ := p
  have := List.sizeOf_lt_of_mem h
  simp at this ⊢
  omega

/-- Induction over the tree of a property type: what holds of an object type may be shown from its
    holding of the types of the object's properties. -/
@[elab_as_elim] theorem PropertyType.induction_on_objects {P : PropertyType → Prop}
    (primitive : ∀ kind, P (.primitive kind)) (reference : ∀ name, P (.reference name))
    (object : ∀ o : ObjectType, (∀ p ∈ o.properties, P p.type) → P (.object o)) :
    ∀ t : PropertyType, P t
  | .primitive kind => primitive kind
  | .reference name => reference name
  | .object o => object o fun p _ => induction_on_objects primitive reference object p.type
termination_by t => sizeOf t
decreasing_by exact sizeOf_type_lt ‹_›

/-! ## The objects of a tree -/

/-- An object type stands in another, at any depth, or is it. -/
inductive ObjectType.Contains : ObjectType → ObjectType → Prop
  | self (o : ObjectType) : Contains o o
  | inner {o i q : ObjectType} {p : Property} (hp : p ∈ o.properties) (ht : p.type = .object i)
      (h : Contains i q) : Contains o q

/-- An object type stands in one of the types of a set. -/
def TypeSet.HasObject (types : TypeSet) (o : ObjectType) : Prop :=
  ∃ decl ∈ types.types, decl.body.Contains o

/-- A property belongs to an object type that stands in one of the types of a set. -/
def TypeSet.HasProperty (types : TypeSet) (p : Property) : Prop :=
  ∃ o, types.HasObject o ∧ p ∈ o.properties

/-! ## Conditions on all objects of a tree -/

variable {Q : ObjectType → Prop}

/-- A condition holds of an object type and of all that stand in it. -/
def ObjectType.Throughout (Q : ObjectType → Prop) (o : ObjectType) : Prop :=
  ∀ q, o.Contains q → Q q

/-- A condition holds of all object types in a property type. -/
def PropertyType.Throughout (Q : ObjectType → Prop) (t : PropertyType) : Prop :=
  ∀ o, t = .object o → o.Throughout Q

@[simp] theorem PropertyType.throughout_primitive {kind : Primitive} :
    (PropertyType.primitive kind).Throughout Q := by
  intro o h; cases h

@[simp] theorem PropertyType.throughout_reference {name : String} :
    (PropertyType.reference name).Throughout Q := by
  intro o h; cases h

@[simp] theorem PropertyType.throughout_object {o : ObjectType} :
    (PropertyType.object o).Throughout Q ↔ o.Throughout Q := by
  constructor
  · intro h; exact h o rfl
  · intro h i hi; cases hi; exact h

/-- A condition on all objects is one on the outermost and on all in the types of its properties. -/
theorem ObjectType.throughout_iff {o : ObjectType} :
    o.Throughout Q ↔ Q o ∧ ∀ p ∈ o.properties, p.type.Throughout Q := by
  constructor
  · intro h
    exact ⟨h o (.self o), fun p hp i ht q hq => h q (.inner hp ht hq)⟩
  · rintro ⟨ho, hps⟩ q hq
    cases hq with
    | self => exact ho
    | inner hp ht hq => exact hps _ hp _ ht q hq

theorem TypeSet.forall_hasObject_iff {types : TypeSet} :
    (∀ o, types.HasObject o → Q o) ↔ ∀ decl ∈ types.types, decl.body.Throughout Q := by
  constructor
  · intro h decl hd q hq
    exact h q ⟨decl, hd, hq⟩
  · rintro h o ⟨decl, hd, ho⟩
    exact h decl hd o ho

theorem TypeSet.forall_hasProperty_iff {types : TypeSet} {R : Property → Prop} :
    (∀ p, types.HasProperty p → R p) ↔ ∀ o, types.HasObject o → ∀ p ∈ o.properties, R p := by
  constructor
  · intro h o ho p hp
    exact h p ⟨o, ho, hp⟩
  · rintro h p ⟨o, ho, hp⟩
    exact h o ho p hp

end TypedFlags.Schema
