import TypedFlags.Proofs.Schema.Reordering
/-!
# Widening a schema

A schema is widened when its types stay and ask for less: properties become optional, numbers are
asked for less narrowly, and properties and types are added that nobody has to give. **What passed
before passes afterwards** (`TypeSet.check_of_wider`), so values that are stored need not be looked
at again.

Of an added property it matters that its name is new. A value that passed has no entry of that name,
for such an entry would not have been declared; so the type of the added property is never asked, and
it is enough that the property is optional. That the name is new is not part of `ObjectType.Widened`:
it follows from the names of the wider schema being different, which reading sees to.
-/

set_option autoImplicit false

namespace TypedFlags.Schema

/-! ## The relation -/

/-- A primitive kind is widened. -/
inductive Primitive.Widened : Primitive → Primitive → Prop
  | same (kind : Primitive) : Widened kind kind
  | integerFloat : Widened .integer .float
  | integerNumber : Widened .integer .number
  | floatNumber : Widened .float .number
  | numberFloat : Widened .number .float

mutual

/-- The type of a property is widened. A reference keeps its name. -/
inductive PropertyType.Widened : PropertyType → PropertyType → Prop
  | primitive {kind kind' : Primitive} (h : kind.Widened kind') :
      PropertyType.Widened (.primitive kind) (.primitive kind')
  | reference (name : String) : PropertyType.Widened (.reference name) (.reference name)
  | object {o o' : ObjectType} (h : ObjectType.Widened o o') :
      PropertyType.Widened (.object o) (.object o')

/-- A property is widened. It keeps its name and its array flag, and may become optional. -/
inductive Property.Widened : Property → Property → Prop
  | intro (name : String) (isArray : Bool) {isOptional isOptional' : Bool} {t t' : PropertyType}
      (ho : isOptional = true → isOptional' = true) (h : PropertyType.Widened t t') :
      Property.Widened ⟨name, isOptional, isArray, t⟩ ⟨name, isOptional', isArray, t'⟩

/-- An object type is widened. It keeps its array flag and its properties, in any order, each of them
    widened; what is added is optional. -/
inductive ObjectType.Widened : ObjectType → ObjectType → Prop
  | intro (isArray : Bool) {ps kept added ps' : List Property}
      (h : List.Forall₂ Property.Widened ps kept) (ha : ∀ p ∈ added, p.isOptional = true)
      (hp : ps'.Perm (kept ++ added)) : ObjectType.Widened ⟨ps, isArray⟩ ⟨ps', isArray⟩

end

/-- A type is widened under its name. -/
structure TypeDecl.Widened (decl decl' : TypeDecl) : Prop where
  name : decl.name = decl'.name
  body : decl.body.Widened decl'.body

/-- A type set is widened. It keeps its types, in any order, each of them widened; others may be
    added. -/
def TypeSet.Widened (T T' : TypeSet) : Prop :=
  ∃ kept added, List.Forall₂ TypeDecl.Widened T.types kept ∧ T'.types.Perm (kept ++ added)

theorem Property.Widened.name {p p' : Property} (h : p.Widened p') : p.name = p'.name := by
  cases h
  rfl

theorem Property.Widened.isOptional {p p' : Property} (h : p.Widened p')
    (ho : p.isOptional = true) : p'.isOptional = true := by
  cases h with
  | intro name isArray hopt => exact hopt ho

/-! ## What is asked -/

/-- A requirement is widened. In the wider record no name is repeated, nor in the objects in it. A
    type that does not exist may be widened to anything, as nothing meets it. -/
inductive Requirement.Widened : Requirement → Requirement → Prop
  | primitive {kind kind' : Primitive} (h : kind.Widened kind') :
      Requirement.Widened (.primitive kind) (.primitive kind')
  | record {ps kept added ps' : List Property} (h : List.Forall₂ Property.Widened ps kept)
      (ha : ∀ p ∈ added, p.isOptional = true) (hp : ps'.Perm (kept ++ added))
      (hn : (ps'.map (·.name)).Nodup)
      (hd : ∀ p ∈ ps', p.type.Throughout ObjectType.Distinct) :
      Requirement.Widened (.record ps) (.record ps')
  | list {r r' : Requirement} (h : Requirement.Widened r r') :
      Requirement.Widened (.list r) (.list r')
  | unresolved (name : String) (r : Requirement) : Requirement.Widened (.unresolved name) r

theorem Requirement.Widened.listIf {r r' : Requirement} (h : r.Widened r') (isArray : Bool) :
    (Requirement.listIf isArray r).Widened (.listIf isArray r') := by
  cases isArray with
  | false => exact h
  | true => exact .list h

theorem ObjectType.Widened.requirement {o o' : ObjectType} (h : o.Widened o')
    (hd : o'.Throughout ObjectType.Distinct) : o.requirement.Widened o'.requirement := by
  obtain ⟨hn, hin⟩ := ObjectType.throughout_iff.1 hd
  cases h with
  | intro isArray h ha hp => exact (Requirement.Widened.record h ha hp hn hin).listIf isArray

/-- A name that means a type in one set means a widened one in the other, and there no object type
    repeats a name. -/
structure WiderTypes (T T' : TypeSet) : Prop where
  find : ∀ n decl, T.types.find? (·.name = n) = some decl →
    ∃ decl', T'.types.find? (·.name = n) = some decl' ∧ decl.Widened decl'
  distinct : ∀ o, T'.HasObject o → o.Distinct

theorem TypeSet.Widened.widerTypes {T T' : TypeSet} (h : T.Widened T')
    (hn : (T'.types.map (·.name)).Nodup) (hd : ∀ o, T'.HasObject o → o.Distinct) :
    WiderTypes T T' := by
  obtain ⟨kept, added, hk, hp⟩ := h
  refine ⟨fun n decl hf => ?_, hd⟩
  have hrel := find?_forall₂ (fun decl decl' (h : TypeDecl.Widened decl decl') => h.name) hk n
  rcases cases_of_rel hrel with ⟨hnone, -⟩ | ⟨d, decl', hd, hkept, hw⟩
  · rw [hnone] at hf
    cases hf
  · rw [hd] at hf
    cases hf
    refine ⟨decl', ?_, hw⟩
    rw [find?_perm hn hp, List.find?_append, hkept]
    rfl

section
variable {T T' : TypeSet}

theorem WiderTypes.throughout (hT : WiderTypes T T') {n : String} {decl : TypeDecl}
    (h : T'.types.find? (·.name = n) = some decl) : decl.body.Throughout ObjectType.Distinct :=
  TypeSet.forall_hasObject_iff.1 hT.distinct decl (List.mem_of_find?_eq_some h)

theorem WiderTypes.resolve (hT : WiderTypes T T') {n : String} {decl : TypeDecl}
    (h : T.resolve? n = some decl) :
    ∃ decl', T'.resolve? n = some decl' ∧ decl.Widened decl' ∧
      decl'.body.Throughout ObjectType.Distinct := by
  unfold TypeSet.resolve? at h ⊢
  split at h
  · cases h
  · next hne =>
    obtain ⟨decl', hf, hw⟩ := hT.find n decl h
    rw [if_neg hne]
    exact ⟨decl', hf, hw, hT.throughout hf⟩

theorem PropertyType.Widened.requirement (hT : WiderTypes T T') {t t' : PropertyType}
    (h : t.Widened t') (hd : t'.Throughout ObjectType.Distinct) :
    (t.requirement T).Widened (t'.requirement T') := by
  cases h with
  | primitive h => exact .primitive h
  | object h => exact h.requirement (PropertyType.throughout_object.1 hd)
  | reference name =>
    cases hr : T.resolve? name with
    | none =>
      rw [PropertyType.requirement, hr]
      exact .unresolved name _
    | some decl =>
      obtain ⟨decl', hr', hw, hd'⟩ := hT.resolve hr
      rw [PropertyType.requirement, PropertyType.requirement, hr, hr']
      exact hw.body.requirement hd'

theorem Property.Widened.requirement (hT : WiderTypes T T') {p p' : Property} (h : p.Widened p')
    (hd : p'.type.Throughout ObjectType.Distinct) :
    (p.requirement T).Widened (p'.requirement T') := by
  cases h with
  | intro name isArray _ h => exact (h.requirement hT hd).listIf isArray

/-! ## What passes -/

theorem Primitive.Widened.admits {kind kind' : Primitive} (h : kind.Widened kind') {v : Json}
    (hv : kind.admits v = true) : kind'.admits v = true := by
  rw [Primitive.admits_iff] at hv ⊢
  cases h with
  | same => exact hv
  | integerFloat | integerNumber | floatNumber | numberFloat => cases hv <;> constructor

theorem names_of_widened {ps kept : List Property} (h : List.Forall₂ Property.Widened ps kept) :
    ps.map (·.name) = kept.map (·.name) := by
  induction h with
  | nil => rfl
  | cons hp _ ih => rw [List.map_cons, List.map_cons, hp.name, ih]

theorem exists_of_kept {ps kept : List Property} (h : List.Forall₂ Property.Widened ps kept)
    {p' : Property} (hp' : p' ∈ kept) : ∃ p ∈ ps, p.Widened p' := by
  induction h with
  | nil => cases hp'
  | @cons p _ ps _ hp _ ih =>
    rcases List.mem_cons.1 hp' with rfl | hp'
    · exact ⟨p, List.mem_cons_self, hp⟩
    · obtain ⟨q, hq, hw⟩ := ih hp'
      exact ⟨q, List.mem_cons_of_mem _ hq, hw⟩

section
variable {ps kept added ps' : List Property}

theorem undeclared?_of_widened (h : List.Forall₂ Property.Widened ps kept)
    (hp : ps'.Perm (kept ++ added)) {es : List (String × Json)} (hu : undeclared? ps es = none) :
    undeclared? ps' es = none := by
  rw [undeclared?_eq_none_iff] at hu ⊢
  intro m hm
  have hname : m.1 ∈ ps.map (·.name) := List.mem_map.2 (hu m hm)
  rw [names_of_widened h] at hname
  obtain ⟨p', hp', he⟩ := List.mem_map.1 hname
  exact ⟨p', hp.mem_iff.2 (List.mem_append_left _ hp'), he⟩

/-- What is added has a name that was not there. -/
theorem new_of_added (h : List.Forall₂ Property.Widened ps kept) (hp : ps'.Perm (kept ++ added))
    (hn : (ps'.map (·.name)).Nodup) {p' : Property} (hp' : p' ∈ added) :
    p'.name ∉ ps.map (·.name) := by
  have hnames : (kept.map (·.name) ++ added.map (·.name)).Nodup := by
    rw [← List.map_append]
    exact (hp.map _).nodup_iff.1 hn
  rw [names_of_widened h]
  intro hkept
  exact (List.nodup_append.1 hnames).2.2 _ hkept _ (List.mem_map_of_mem hp') rfl

/-- Entries that are all declared have none under the name of what is added. -/
theorem entryOf?_of_added (h : List.Forall₂ Property.Widened ps kept)
    (hp : ps'.Perm (kept ++ added)) (hn : (ps'.map (·.name)).Nodup) {es : List (String × Json)}
    (hu : undeclared? ps es = none) {p' : Property} (hp' : p' ∈ added) :
    entryOf? p'.name es = none := by
  rw [entryOf?_eq_none_iff]
  rintro ⟨m, hm, hname⟩
  obtain ⟨p, hps, hpm⟩ := undeclared?_eq_none_iff.1 hu m hm
  exact new_of_added h hp hn hp' (List.mem_map.2 ⟨p, hps, hpm.trans hname⟩)

end

/-- **What meets a requirement meets the wider one.** -/
theorem check_of_widened (hT : WiderTypes T T') {r r' : Requirement} (h : r.Widened r')
    (label label' : String) {v : Json} (hv : check T r label v = .ok ()) :
    check T' r' label' v = .ok () := by
  -- On the value, as a reference leads to types that need not be smaller.
  induction hsize : sizeOf v using Nat.strongRecOn generalizing v r r' label label' with
  | ind size ih =>
    subst hsize
    cases h with
    | primitive h =>
      rw [check_primitive_iff] at hv ⊢
      exact h.admits hv
    | unresolved name => exact absurd hv check_unresolved
    | list h =>
      obtain ⟨items, rfl, hitems⟩ := check_list_iff.1 hv
      exact check_list_iff.2 ⟨items, rfl, fun item hi =>
        ih _ (Json.sizeOf_item_lt hi) h label label' (hitems item hi) rfl⟩
    | record h ha hp hn hd =>
      obtain ⟨es, hes, hu, hall⟩ := check_record_iff.1 hv
      refine check_record_iff.2 ⟨es, hes, undeclared?_of_widened h hp hu, fun p' hp' => ?_⟩
      rcases List.mem_append.1 (hp.mem_iff.1 hp') with hkept | hadded
      · obtain ⟨p, hps, hw⟩ := exists_of_kept h hkept
        obtain ⟨hthere, hmissing⟩ := hall p hps
        rw [hw.name] at hthere hmissing
        refine ⟨fun e he => ?_, fun hnone => hw.isOptional (hmissing hnone)⟩
        exact ih _ (Json.sizeOf_entry_lt hes (entryOf?_mem he)) (hw.requirement hT (hd p' hp'))
          p'.name p'.name (hthere e he) rfl
      · rw [entryOf?_of_added h hp hn hu hadded]
        refine ⟨fun e he => ?_, fun _ => ha p' hadded⟩
        cases he

/-- **Widening a schema never invalidates a value.** What passes a schema passes each wider one that
    is read from a text. -/
theorem TypeSet.check_of_wider {text : String} {v : Json} (hread : TypeSet.ofText text = .ok T')
    (h : T.Widened T') (hv : T.check v = .ok ()) : T'.check v = .ok () := by
  have hT := h.widerTypes (TypeSet.names_nodup_of_ofText hread)
    (TypeSet.writable_of_ofText hread).1.distinct
  unfold TypeSet.check at hv ⊢
  cases hm : T.main? with
  | none =>
    rw [hm] at hv
    cases hv
  | some main =>
    obtain ⟨main', hf, hw⟩ := hT.find "" main hm
    have hm' : T'.main? = some main' := hf
    rw [hm] at hv
    rw [hm']
    exact Schema.check_of_widened hT (hw.body.requirement (hT.throughout hf)) rootLabel rootLabel hv

/-- Types in another order and one more, properties that become optional, wider numbers, and optional
    properties before the others; the value nests a type in itself. -/
theorem TypeSet.check_of_wider_nodes :
    let text := "type Note = \x7b\x7d type Node = \x7b note?: Note, next?: Node, weight?: number \x7d" ++
      "\x7b hint?: \x7b deep: Note \x7d, root: Node[], size?: float \x7d"
    let next : Property := ⟨"next", true, false, .reference "Node"⟩
    let root : Property := ⟨"root", false, true, .reference "Node"⟩
    let note : Property := ⟨"note", true, false, .reference "Note"⟩
    let hint : Property :=
      ⟨"hint", true, false, .object ⟨[⟨"deep", false, false, .reference "Note"⟩], false⟩⟩
    let number (name : String) (isOptional : Bool) (kind : Primitive) : Property :=
      ⟨name, isOptional, false, .primitive kind⟩
    let main : TypeDecl := ⟨"", ⟨[number "size" false .integer, root], false⟩⟩
    let main' : TypeDecl := ⟨"", ⟨[hint, root, number "size" true .float], false⟩⟩
    let node : TypeDecl := ⟨"Node", ⟨[number "weight" false .float, next], false⟩⟩
    let node' : TypeDecl := ⟨"Node", ⟨[note, next, number "weight" true .number], false⟩⟩
    let T : TypeSet := ⟨[main, node]⟩
    let T' : TypeSet := ⟨[⟨"Note", ⟨[], false⟩⟩, node', main']⟩
    let one : Json := .number (.integer 1 (by decide))
    let v : Json := .object [("root", .array [.object [("next", .object [("weight", one)]),
      ("weight", one)]]), ("size", one)]
    TypeSet.ofText text = .ok T' ∧ T.Widened T' ∧ T.check v = .ok () ∧ T'.check v = .ok () := by
  intro text next root note hint number main main' node node' T T' one v
  have hread : TypeSet.ofText text = .ok T' := by decide +kernel
  have hv : T.check v = .ok () := toOption_eq_some_iff.1 (by decide +kernel)
  have hnumber : ∀ (name : String) {kind kind' : Primitive}, kind.Widened kind' →
      (number name false kind).Widened (number name true kind') := fun name _ _ h =>
    .intro name false (fun _ => rfl) (.primitive h)
  have hnode : node.Widened node' := by
    have hadded : ∀ p ∈ [note], p.isOptional = true := List.forall_mem_singleton.2 rfl
    have hnext : next.Widened next := .intro "next" false id (.reference "Node")
    exact ⟨rfl, .intro false (.cons (hnumber "weight" .floatNumber) (.cons hnext .nil)) hadded
      (List.reverse_perm _).symm⟩
  have hmain : main.Widened main' := by
    have hadded : ∀ p ∈ [hint], p.isOptional = true := List.forall_mem_singleton.2 rfl
    have hroot : root.Widened root := .intro "root" true id (.reference "Node")
    exact ⟨rfl, .intro false (.cons (hnumber "size" .integerFloat) (.cons hroot .nil)) hadded
      (List.reverse_perm _).symm⟩
  have hw : T.Widened T' :=
    ⟨[main', node'], [_], .cons hmain (.cons hnode .nil), (List.reverse_perm _).symm⟩
  exact ⟨hread, hw, hv, TypeSet.check_of_wider hread hw hv⟩

end

end TypedFlags.Schema
