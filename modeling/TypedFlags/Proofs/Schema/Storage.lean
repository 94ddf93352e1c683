import TypedFlags.Schema.Stored
import TypedFlags.Proofs.Json.Depth
import TypedFlags.Proofs.Json.Printing
import TypedFlags.Proofs.Schema.WellFormed
/-!
# What is stored and what is restored

The document of a type set says all that the type set says (`TypeSet.ofJson?_toJson`), its text is
JSON text (`TypeSet.isText_stored`), and restoring looks at every field of it
(`TypeSet.within_toJson`). So whatever is stored could be restored, if it were not for the depth at
which JSON is read: an object in the place of a type takes four levels of JSON
(`ObjectType.depth_bounds`), and of the 127 that are read this leaves room for 31 objects in each
other (`TypeSet.restore?_stored`).

**Schema text allows more than that.** Its own limit is 128 objects in each other, so a type set read
from it may be stored and never restored (`TypeSet.stored_not_restored`).
-/

set_option autoImplicit false

namespace TypedFlags.Schema

/-! ## Records -/

theorem Property.listToJson_eq (ps : List Property) : listToJson ps = ps.map toJson := by
  induction ps with
  | nil => rfl
  | cons p ps ih => rw [listToJson, ih, List.map_cons]

theorem ObjectType.toJson_eq (o : ObjectType) :
    o.toJson = .object [("properties", .array (o.properties.map Property.toJson)),
      ("isArray", .bool o.isArray)] := by
  obtain ⟨ps, isArray⟩ := o
  rw [ObjectType.toJson, Property.listToJson_eq]

theorem Property.toJson_eq (p : Property) :
    p.toJson = .object [("propertyName", .string p.name), ("isOptional", .bool p.isOptional),
      ("isArray", .bool p.isArray), ("propertyType", p.type.toJson)] := by
  obtain ⟨name, isOptional, isArray, type⟩ := p
  rw [Property.toJson]

/-! ## Decoding what was encoded -/

theorem Primitive.ofName_keyword (kind : Primitive) : ofName kind.keyword = kind := by
  cases kind <;> decide

theorem mapM_attach_map {α β : Type} {items : List β} {f : β → α} {g : α → Option β}
    (h : ∀ b ∈ items, g (f b) = some b) :
    ((items.map f).attach.mapM fun ⟨a, _⟩ => g a) = some items := by
  rw [List.mapM_subtype (g := g) (fun _ _ => rfl), List.unattach_attach]
  induction items with
  | nil => rfl
  | cons b bs ih =>
    rw [List.forall_mem_cons] at h
    simp [h.1, ih h.2]

theorem ObjectType.ofJson?_toJson {o : ObjectType} {numbered : Bool}
    (h : ∀ p ∈ o.properties, Property.ofJson? numbered p.toJson = some p) :
    ofJson? numbered o.toJson = some o := by
  rw [o.toJson_eq, ObjectType.ofJson?]
  have hr : (Json.object [("properties", .array (o.properties.map Property.toJson)),
      ("isArray", .bool o.isArray)]).required? ["properties", "isArray"] =
      some [.array (o.properties.map Property.toJson), .bool o.isArray] := rfl
  split
  · next heq =>
    rw [hr] at heq
    cases heq
    rw [mapM_attach_map h]
    cases o
    rfl
  · next hne => exact absurd hr (hne _ _)

theorem Property.ofJson?_toJson {p : Property} {numbered : Bool}
    (h : PropertyType.ofJson? numbered p.type.toJson = some p.type) :
    ofJson? numbered p.toJson = some p := by
  rw [p.toJson_eq, Property.ofJson?]
  have hr : (Json.object [("propertyName", .string p.name), ("isOptional", .bool p.isOptional),
      ("isArray", .bool p.isArray), ("propertyType", p.type.toJson)]).required?
        ["propertyName", "isOptional", "isArray", "propertyType"] =
      some [.string p.name, .bool p.isOptional, .bool p.isArray, p.type.toJson] := rfl
  split
  · next heq =>
    rw [hr] at heq
    cases heq
    rw [h]
    cases p
    rfl
  · next hne => exact absurd hr (hne _ _ _ _)

theorem PropertyType.ofJson?_toJson (t : PropertyType) (numbered : Bool) :
    ofJson? numbered t.toJson = some t := by
  induction t using PropertyType.induction_on_objects generalizing numbered with
  | primitive kind =>
    have hk : (PropertyType.primitive kind).toJson.kinded? kinds numbered =
        some ("primitive", (PropertyType.primitive kind).toJson) := rfl
    have hr : (PropertyType.primitive kind).toJson.required? ["primitive"] =
        some [.string kind.keyword] := rfl
    rw [PropertyType.ofJson?]
    split
    · next heq =>
      rw [hk] at heq
      cases heq
      simp [hr, Primitive.ofJson?, Primitive.ofName_keyword]
    · next heq => simp [hk] at heq
    · next heq => simp [hk] at heq
    · next hne _ _ => exact absurd hk (hne _)
  | reference name =>
    have hk : (PropertyType.reference name).toJson.kinded? kinds numbered =
        some ("identifier", (PropertyType.reference name).toJson) := rfl
    have hr : (PropertyType.reference name).toJson.required? ["name"] =
        some [.string name] := rfl
    rw [PropertyType.ofJson?]
    split
    · next heq => simp [hk] at heq
    · next heq =>
      rw [hk] at heq
      cases heq
      simp [hr, Json.string?]
    · next heq => simp [hk] at heq
    · next hne _ => exact absurd hk (hne _)
  | object o ih =>
    have hk : (PropertyType.object o).toJson.kinded? kinds numbered =
        some ("object", (PropertyType.object o).toJson) := rfl
    have hr : (PropertyType.object o).toJson.required? ["object"] = some [o.toJson] := rfl
    have ho : ObjectType.ofJson? true o.toJson = some o :=
      ObjectType.ofJson?_toJson fun p hp => Property.ofJson?_toJson (ih p hp true)
    rw [PropertyType.ofJson?]
    split
    · next heq => simp [hk] at heq
    · next heq => simp [hk] at heq
    · next heq =>
      rw [hk] at heq
      cases heq
      split
      · next heq =>
        rw [hr] at heq
        cases heq
        simp [ho]
      · next hne => exact absurd hr (hne _)
    · next hne => exact absurd hk (hne _)

theorem TypeDecl.ofJson?_toJson (decl : TypeDecl) : ofJson? decl.toJson = some decl := by
  have hf : decl.toJson.fields? [.optional "name" (.string ""), .required "object"] =
      some [.string decl.name, decl.body.toJson] := rfl
  have hb : ObjectType.ofJson? false decl.body.toJson = some decl.body :=
    ObjectType.ofJson?_toJson fun p _ => Property.ofJson?_toJson (p.type.ofJson?_toJson false)
  simp [TypeDecl.ofJson?, hf, hb, Json.string?]

/-- **Storing loses nothing**: the document of a type set stores the type set. -/
theorem TypeSet.ofJson?_toJson (T : TypeSet) : ofJson? T.toJson = some T := by
  have hall : ∀ decls : List TypeDecl,
      (decls.map (·.toJson)).mapM TypeDecl.ofJson? = some decls := by
    intro decls
    induction decls with
    | nil => rfl
    | cons decl decls ih => simp [TypeDecl.ofJson?_toJson, ih]
  rw [TypeSet.toJson, TypeSet.ofJson?, hall]
  rfl

/-! ## The stored text is read -/

theorem Property.printable_toJson {p : Property} (h : p.type.toJson.Printable) :
    p.toJson.Printable := by
  rw [p.toJson_eq]
  simp [h]

theorem ObjectType.printable_toJson {o : ObjectType}
    (h : ∀ p ∈ o.properties, p.type.toJson.Printable) : o.toJson.Printable := by
  have hps : ∀ p ∈ o.properties, p.toJson.Printable := fun p hp => Property.printable_toJson (h p hp)
  rw [o.toJson_eq]
  simpa using hps

theorem PropertyType.printable_toJson (t : PropertyType) : t.toJson.Printable := by
  induction t using PropertyType.induction_on_objects with
  | primitive kind => simp [PropertyType.toJson]
  | reference name => simp [PropertyType.toJson]
  | object o ih => simp [PropertyType.toJson, ObjectType.printable_toJson ih]

theorem TypeSet.printable_toJson (T : TypeSet) : T.toJson.Printable := by
  have hbody : ∀ decl ∈ T.types, decl.body.toJson.Printable := fun decl _ =>
    ObjectType.printable_toJson fun p _ => p.type.printable_toJson
  simpa [TypeSet.toJson, TypeDecl.toJson] using hbody

theorem TypeSet.isText_stored (T : TypeSet) : Json.IsText T.toJson T.stored.toList :=
  T.printable_toJson.isText

/-- Restoring looks at every field that is stored. -/
theorem TypeSet.within_toJson (T : TypeSet) : Json.Within outline T.toJson := by
  have hproperty : ∀ p : Property,
      Json.Within [["propertyName", "isOptional", "isArray", "propertyType"]] p.toJson := by
    intro p
    rw [p.toJson_eq]
    simp [Json.Outline.wants, Json.within_nil]
  have hobject : ∀ o : ObjectType, Json.Within [["properties", "isArray"], [],
      ["propertyName", "isOptional", "isArray", "propertyType"]] o.toJson := by
    intro o
    rw [o.toJson_eq]
    simp [Json.Outline.wants, hproperty]
  simp [outline, TypeSet.toJson, TypeDecl.toJson, Json.Outline.wants, hobject]

/-! ## How deep it is -/

theorem Property.listNesting_le_iff {ps : List Property} {n : Nat} :
    listNesting ps ≤ n ↔ ∀ p ∈ ps, p.type.nesting ≤ n := by
  induction ps with
  | nil => simp [listNesting]
  | cons p ps ih =>
    rw [listNesting, Nat.max_le, ih, List.forall_mem_cons]
    cases p
    rfl

theorem Property.depth_toJson (p : Property) : p.toJson.depth = p.type.toJson.depth + 1 := by
  rw [p.toJson_eq]
  simp [Json.depth, Json.depthMembers]

theorem ObjectType.depth_toJson (o : ObjectType) :
    o.toJson.depth = Json.depthItems (o.properties.map Property.toJson) + 2 := by
  rw [o.toJson_eq]
  simp [Json.depth, Json.depthMembers]

theorem ObjectType.nesting_eq (o : ObjectType) :
    o.nesting = Property.listNesting o.properties + 1 := by
  cases o
  rfl

/-- Each object takes four levels of JSON: its own, that of its properties, that of a property, and
    that of what the property holds. The last two are not there if it has no properties. -/
theorem ObjectType.depth_bounds {o : ObjectType}
    (h : ∀ p ∈ o.properties, p.type.toJson.depth ≤ 4 * p.type.nesting + 1 ∧
      4 * p.type.nesting ≤ p.type.toJson.depth + 1) :
    o.toJson.depth ≤ 4 * o.nesting ∧ 4 * o.nesting ≤ o.toJson.depth + 2 := by
  rw [o.depth_toJson, o.nesting_eq]
  have hupper : Json.depthItems (o.properties.map Property.toJson) ≤
      4 * Property.listNesting o.properties + 2 := by
    rw [Json.depthItems_le_iff, List.forall_mem_map]
    intro p hp
    have hn := Property.listNesting_le_iff.1 (Nat.le_refl _) p hp
    have := (h p hp).1
    rw [p.depth_toJson]
    omega
  have hlower : Property.listNesting o.properties ≤
      Json.depthItems (o.properties.map Property.toJson) / 4 := by
    rw [Property.listNesting_le_iff]
    intro p hp
    have hd := Json.depthItems_le_iff.1 (Nat.le_refl _) p.toJson (List.mem_map_of_mem hp)
    have := (h p hp).2
    rw [p.depth_toJson] at hd
    omega
  omega

theorem PropertyType.depth_toJson_object (o : ObjectType) :
    (PropertyType.object o).toJson.depth = o.toJson.depth + 1 := by
  simp [PropertyType.toJson, Json.depth, Json.depthMembers]

theorem PropertyType.depth_bounds (t : PropertyType) :
    t.toJson.depth ≤ 4 * t.nesting + 1 ∧ 4 * t.nesting ≤ t.toJson.depth + 1 := by
  induction t using PropertyType.induction_on_objects with
  | primitive kind =>
    simp [PropertyType.toJson, PropertyType.nesting, Json.depth, Json.depthMembers]
  | reference name =>
    simp [PropertyType.toJson, PropertyType.nesting, Json.depth, Json.depthMembers]
  | object o ih =>
    obtain ⟨hupper, hlower⟩ := ObjectType.depth_bounds ih
    rw [PropertyType.depth_toJson_object, PropertyType.nesting]
    omega

/-- How deep objects may be nested in a type set that can be restored. -/
def maxStoredNesting : Nat := 31

/-- Of the levels that are read two stand around the objects of the types, and each of those takes
    four. -/
theorem TypeSet.depth_toJson_le_iff (T : TypeSet) :
    T.toJson.depth ≤ Json.maxDepth ↔ ∀ decl ∈ T.types, decl.body.nesting ≤ maxStoredNesting := by
  have hdecl : ∀ decl : TypeDecl,
      decl.toJson.depth ≤ 126 ↔ decl.body.nesting ≤ maxStoredNesting := by
    intro decl
    have hdepth : decl.toJson.depth = decl.body.toJson.depth + 1 := by
      simp [TypeDecl.toJson, Json.depth, Json.depthMembers]
    have hbounds := @ObjectType.depth_bounds decl.body fun p _ => p.type.depth_bounds
    rw [hdepth, maxStoredNesting]
    omega
  rw [TypeSet.toJson, Json.depth, Json.maxDepth, Nat.succ_le_succ_iff, Json.depthItems_le_iff,
    List.forall_mem_map]
  simp only [hdecl]

/-! ## Restoring -/

theorem TypeSet.restore?_stored_eq_some_iff {T U : TypeSet} :
    restore? T.stored = some U ↔
      U = T ∧ ∀ decl ∈ T.types, decl.body.nesting ≤ maxStoredNesting := by
  have hread := fun u => Json.IsText.readOutline_iff (u := u) T.isText_stored T.within_toJson
  rw [restore?, Option.bind_eq_some_iff, ← T.depth_toJson_le_iff]
  constructor
  · rintro ⟨v, hv, hU⟩
    obtain ⟨rfl, hd⟩ := (hread v).1 (toOption_eq_some_iff.1 hv)
    rw [TypeSet.ofJson?_toJson] at hU
    cases hU
    exact ⟨rfl, hd⟩
  · rintro ⟨rfl, hd⟩
    exact ⟨_, toOption_eq_some_iff.2 ((hread _).2 ⟨rfl, hd⟩), TypeSet.ofJson?_toJson _⟩

/-- **A stored type set is restored, as it was, if and only if no object stands too deep in it.** If
    one does, nothing is restored. -/
theorem TypeSet.restore?_stored (T : TypeSet) :
    restore? T.stored =
      if ∀ decl ∈ T.types, decl.body.nesting ≤ maxStoredNesting then some T else none := by
  ext U
  rw [restore?_stored_eq_some_iff]
  split
  · next h =>
    rw [and_iff_left h, Option.some.injEq, eq_comm]
  · next h => simp [h]

/-- Schema text may nest objects deeper than can be restored. -/
theorem TypeSet.stored_not_restored :
    let text := String.join (List.replicate 31 "\x7ba:") ++ "\x7b\x7d" ++
      String.join (List.replicate 31 "\x7d")
    ∃ T, TypeSet.ofText text = .ok T ∧ restore? T.stored = none := by
  intro text
  have hdeep : ((TypeSet.ofText text).toOption.all fun T =>
      decide (∀ decl ∈ T.types, decl.body.nesting ≤ maxStoredNesting)) = false := by
    decide +kernel
  cases hT : TypeSet.ofText text with
  | error e =>
    rw [hT] at hdeep
    cases hdeep
  | ok T =>
    rw [hT] at hdeep
    refine ⟨T, rfl, Option.eq_none_iff_forall_ne_some.2 fun U hU => ?_⟩
    exact absurd (restore?_stored_eq_some_iff.1 hU).2 (of_decide_eq_false hdeep)

end TypedFlags.Schema
