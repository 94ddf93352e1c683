import TypedFlags.Proofs.Schema.Conformance
/-!
# All violations

Checking stops at the first violation. Here are **all** of them, as a list: what is wrong with a value
at each position of a schema, in the order in which someone would go through value and schema who
does not stop. An entry that is not declared does not hide a property that is missing, and neither
hides what is wrong inside the properties that are there.

`TypeSet.check_eq_firstOf` says that checking is no more than the head of this list. So the first
violation is not an accident of how the check is written: which of several violations is reported,
and under which label, can be read off the list. Definitions and proof go by the value, as for
conformance; a reference is followed without leaving the value, and may lead anywhere.
-/

set_option autoImplicit false

namespace TypedFlags.Schema

/-! ## The list -/

mutual

/-- All violations of the shape of some properties: the entries that are not declared, in their
    order, and then, in the order of the properties, each that is missing or what is wrong with its
    value. -/
def shapeViolations (types : TypeSet) (ps : List Property) (label : String) (v : Json) :
    List Violation :=
  match _h : v.entries? with
  | none => [.notObject label]
  | some entries =>
    (entries.filter fun (name, _) => !ps.any (·.name = name)).map (fun (name, _) => .extra name) ++
      ps.flatMap fun p =>
        match _he : entryOf? p.name entries with
        | some e => p.violations types e.2
        | none => if p.isOptional then [] else [.missing p.name]
termination_by (sizeOf v, 0)
decreasing_by exact .left _ _ (Json.sizeOf_entry_lt _h (entryOf?_mem _he))

/-- All violations of an object type. -/
def ObjectType.violations (types : TypeSet) (o : ObjectType) (label : String) (v : Json) :
    List Violation :=
  if o.isArray then
    match v with
    | .array items => items.attach.flatMap fun ⟨item, _⟩ =>
        shapeViolations types o.properties label item
    | _ => [.notArray label]
  else shapeViolations types o.properties label v
termination_by (sizeOf v, 1)
decreasing_by
  · exact .left _ _ (Json.sizeOf_item_lt ‹_›)
  · exact .right _ (by decide)

/-- All violations of the type of a property, under the name of the property. -/
def PropertyType.violations (types : TypeSet) (t : PropertyType) (label : String) (v : Json) :
    List Violation :=
  match t with
  | .primitive kind => if kind.admits v then [] else [.notOfKind label kind]
  | .object o => o.violations types label v
  | .reference name =>
    match types.resolve? name with
    | some decl => decl.body.violations types label v
    | none => [.unresolved name]
termination_by (sizeOf v, 2)
decreasing_by all_goals exact .right _ (by decide)

/-- All violations of a property. -/
def Property.violations (types : TypeSet) (p : Property) (v : Json) : List Violation :=
  if p.isArray then
    match v with
    | .array items => items.attach.flatMap fun ⟨item, _⟩ => p.type.violations types p.name item
    | _ => [.notArray p.name]
  else p.type.violations types p.name v
termination_by (sizeOf v, 3)
decreasing_by
  · exact .left _ _ (Json.sizeOf_item_lt ‹_›)
  · exact .right _ (by decide)

end

/-- All violations of the main type of a schema, or that it has none. -/
def TypeSet.violations (types : TypeSet) (v : Json) : List Violation :=
  match types.main? with
  | none => [.noMainType]
  | some main => main.body.violations types rootLabel v

/-- What stops at the first violation makes this of all of them. -/
def firstOf : List Violation → Except Violation Unit
  | [] => .ok ()
  | e :: _ => .error e

/-! ## Stopping at the first -/

theorem firstOf_append {as bs : List Violation} :
    firstOf (as ++ bs) = firstOf as >>= fun _ => firstOf bs := by
  cases as <;> rfl

theorem forM_eq_firstOf {α : Type} {xs : List α} {f : α → Except Violation Unit}
    {g : α → List Violation} (h : ∀ x ∈ xs, f x = firstOf (g x)) :
    xs.forM f = firstOf (xs.flatMap g) := by
  induction xs with
  | nil => rfl
  | cons x xs ih =>
    obtain ⟨hx, hxs⟩ := List.forall_mem_cons.1 h
    show (f x >>= fun _ => xs.forM f) = _
    rw [List.flatMap_cons, firstOf_append, hx, ih hxs]

/-! ## Positions -/

section
variable {types : TypeSet} {label : String} {v : Json}

/-- A position that holds an array if a flag says so, and one value otherwise. -/
def listViolations (isArray : Bool) (label : String) (f : Json → List Violation) (v : Json) :
    List Violation :=
  if isArray then
    match v with
    | .array items => items.flatMap f
    | _ => [.notArray label]
  else f v

theorem ObjectType.violations_eq {o : ObjectType} :
    o.violations types label v =
      listViolations o.isArray label (shapeViolations types o.properties label) v := by
  rw [ObjectType.violations.eq_def, listViolations.eq_def]
  cases v <;> simp

theorem Property.violations_eq {p : Property} :
    p.violations types v = listViolations p.isArray p.name (p.type.violations types p.name) v := by
  rw [Property.violations.eq_def, listViolations.eq_def]
  cases v <;> simp

theorem check_listIf {isArray : Bool} {r : Requirement} {f : Json → List Violation}
    (hv : check types r label v = firstOf (f v))
    (hitems : ∀ items, v = .array items → ∀ item ∈ items,
      check types r label item = firstOf (f item)) :
    check types (.listIf isArray r) label v = firstOf (listViolations isArray label f v) := by
  cases isArray with
  | false => exact hv
  | true =>
    rw [Requirement.listIf, if_pos rfl]
    cases v with
    | array items =>
      rw [check_list_array]
      exact forM_eq_firstOf (hitems items rfl)
    | _ => simp [check, listViolations, firstOf]

theorem shapeViolations_of_entries {ps : List Property} {es : List (String × Json)}
    (h : v.entries? = some es) :
    shapeViolations types ps label v =
      (es.filter fun (name, _) => !ps.any (·.name = name)).map (fun (name, _) => .extra name) ++
        ps.flatMap fun p => ((entryOf? p.name es).map fun e => p.violations types e.2).getD
          (if p.isOptional then [] else [.missing p.name]) := by
  rw [shapeViolations.eq_def]
  split
  · next hnone =>
    rw [h] at hnone
    cases hnone
  · next es' hes =>
    rw [h, Option.some.injEq] at hes
    subst hes
    congr 2
    funext p
    split
    · next he => rw [he]; rfl
    · next he => rw [he]; rfl

theorem check_record {ps : List Property}
    (hp : ∀ (p : Property) (u : Json), sizeOf u < sizeOf v →
      check types (p.requirement types) p.name u = firstOf (p.violations types u)) :
    check types (.record ps) label v = firstOf (shapeViolations types ps label v) := by
  cases hes : v.entries? with
  | none =>
    rw [check_record_of_none hes, shapeViolations.eq_def]
    split
    · rfl
    · next hes' => rw [hes] at hes'; cases hes'
  | some es =>
    rw [check_record_of_entries hes, shapeViolations_of_entries hes, firstOf_append]
    have hextra : undeclared? ps es = _ := (List.head?_filter ..).symm
    rw [hextra]
    -- The first entry that is not declared comes before everything said of the properties.
    cases es.filter fun (name, _) => !ps.any (·.name = name) with
    | cons e es => rfl
    | nil =>
      refine forM_eq_firstOf fun p _ => ?_
      cases he : entryOf? p.name es with
      | some e => exact hp p e.2 (Json.sizeOf_entry_lt hes (entryOf?_mem he))
      | none => cases p.isOptional <;> rfl

end

/-! ## The induction -/

/-- Checking reports the first violation of a shape by a value. -/
def ReportsShape (types : TypeSet) (v : Json) : Prop :=
  ∀ (ps : List Property) (label : String),
    check types (.record ps) label v = firstOf (shapeViolations types ps label v)

/-- Checking reports the first violation of an object type by a value. -/
def ReportsObject (types : TypeSet) (v : Json) : Prop :=
  ∀ (o : ObjectType) (label : String),
    check types o.requirement label v = firstOf (o.violations types label v)

/-- Checking reports the first violation of a property type by a value. -/
def ReportsType (types : TypeSet) (v : Json) : Prop :=
  ∀ (t : PropertyType) (label : String),
    check types (t.requirement types) label v = firstOf (t.violations types label v)

/-- Checking reports the first violation of a property by a value. -/
def ReportsProperty (types : TypeSet) (v : Json) : Prop :=
  ∀ p : Property, check types (p.requirement types) p.name v = firstOf (p.violations types v)

section
variable {types : TypeSet} {v : Json}

theorem reportsObject (hv : ReportsShape types v)
    (ih : ∀ u : Json, sizeOf u < sizeOf v → ReportsShape types u) : ReportsObject types v := by
  intro o label
  rw [ObjectType.requirement, o.violations_eq]
  refine check_listIf (hv o.properties label) ?_
  rintro items rfl item hi
  exact ih item (Json.sizeOf_item_lt hi) o.properties label

theorem reportsType (hv : ReportsObject types v) : ReportsType types v := by
  intro t label
  cases t with
  | primitive kind =>
    rw [PropertyType.requirement, PropertyType.violations, check]
    cases kind.admits v <;> rfl
  | object o =>
    rw [PropertyType.requirement, PropertyType.violations]
    exact hv o label
  | reference name =>
    rw [PropertyType.requirement, PropertyType.violations]
    cases types.resolve? name with
    | some decl => exact hv decl.body label
    | none => rw [check]; rfl

theorem reportsProperty (hv : ReportsType types v)
    (ih : ∀ u : Json, sizeOf u < sizeOf v → ReportsType types u) : ReportsProperty types v := by
  intro p
  rw [Property.requirement, p.violations_eq]
  refine check_listIf (hv p.type p.name) ?_
  rintro items rfl item hi
  exact ih item (Json.sizeOf_item_lt hi) p.type p.name

end

theorem reports (types : TypeSet) (v : Json) :
    ReportsShape types v ∧ ReportsObject types v ∧ ReportsType types v ∧
      ReportsProperty types v := by
  -- As for conformance, it is the value that gets smaller.
  induction h : sizeOf v using Nat.strongRecOn generalizing v with
  | ind n ih =>
    subst h
    have hs : ReportsShape types v :=
      fun ps label => check_record fun p u hu => (ih _ hu u rfl).2.2.2 p
    have ho := reportsObject hs fun u hu => (ih _ hu u rfl).1
    have ht := reportsType ho
    exact ⟨hs, ho, ht, reportsProperty ht fun u hu => (ih _ hu u rfl).2.2.1⟩

/-- **Checking stops exactly at the first of all violations**: it accepts a value that has none, and
    otherwise reports the first of them. -/
theorem TypeSet.check_eq_firstOf (types : TypeSet) (v : Json) :
    types.check v = firstOf (types.violations v) := by
  unfold TypeSet.check TypeSet.violations
  cases types.main? with
  | none => rfl
  | some main => exact (reports types v).2.1 main.body rootLabel

/-- An entry too many, a property that is missing, and one whose value is at fault. -/
example :
    let types : TypeSet := ⟨[⟨"", ⟨[⟨"name", false, false, .primitive .string⟩,
      ⟨"age", true, true, .primitive .integer⟩], false⟩⟩]⟩
    types.violations (.object [("age", .array [.bool true, .null]), ("size", .null)]) =
      [.extra "size", .missing "name", .notOfKind "age" .integer, .notOfKind "age" .integer] := by
  cbv

end TypedFlags.Schema
