import TypedFlags.Proofs.Render.Acceptance
/-!
# Arrays in place of objects

Where a schema asks for a single object, an array is read as an object whose keys are the indices of
its items. **That lets no item through** (`TypeSet.rawArrays`): an index starts with a digit and the
name of a property does not, so the first item of an array is always an entry that is not declared.
An array in such a place passes only if it is empty and no property has to be there, and one that is
not empty is reported as the entry `0`.

A check stops at the first violation, so it has to be said which places it comes to. In `Reaches`
everything that is checked before a place has passed, and what is wrong at a place that is reached is
the result of the whole check (`Reaches.error`). Where a value passes, every place is reached
(`Faces.exists_reaches`).
-/

set_option autoImplicit false

namespace TypedFlags.Schema

/-! ## How far a check comes -/

/-- The part of a check that is about one property of a record: the value under its name meets what
    the property asks, or there is none and none is needed. -/
def Property.Met (types : TypeSet) (es : List (String × Json)) (p : Property) : Prop :=
  (∀ e, entryOf? p.name es = some e → check types (p.requirement types) p.name e.2 = .ok ()) ∧
    (entryOf? p.name es = none → p.isOptional = true)

/-- A check of `v` against `r`, under a label, comes to checking `u` against `r'`. The items of an
    array before the one it comes to have passed; so have the properties of a record, all of whose
    entries are declared. -/
inductive Reaches (types : TypeSet) : Requirement → String → Json → Requirement → String → Json → Prop
  | here (r : Requirement) (label : String) (v : Json) : Reaches types r label v r label v
  | item {r r' : Requirement} {label label' : String} (before after : List Json) {v u : Json}
      (hbefore : ∀ w ∈ before, check types r label w = .ok ())
      (h : Reaches types r label v r' label' u) :
      Reaches types (.list r) label (.array (before ++ v :: after)) r' label' u
  | entry (before after : List Property) {p : Property} {es : List (String × Json)}
      {e : String × Json} {r' : Requirement} {label label' : String} {v u : Json}
      (hes : v.entries? = some es) (hdeclared : undeclared? (before ++ p :: after) es = none)
      (hbefore : ∀ q ∈ before, q.Met types es) (he : entryOf? p.name es = some e)
      (h : Reaches types (p.requirement types) p.name e.2 r' label' u) :
      Reaches types (.record (before ++ p :: after)) label v r' label' u

variable {types : TypeSet} {r r' : Requirement} {label label' : String} {v u : Json}

/-- **The first thing wrong is all that is reported**: what is wrong at a place that a check reaches
    is the result of the check. -/
theorem Reaches.error {e : Violation} (h : Reaches types r label v r' label' u)
    (he : check types r' label' u = .error e) : check types r label v = .error e := by
  induction h with
  | here r label v => exact he
  | item before after hbefore _ ih =>
    rw [check_list_array]
    exact forM_error hbefore (ih he)
  | entry before after hes hdeclared hbefore hentry _ ih =>
    rw [check_record_of_entries hes, hdeclared]
    refine forM_error (fun q hq => ?_) ?_
    · obtain ⟨hthere, hmissing⟩ := hbefore q hq
      split
      · next d hd => exact hthere d hd
      · next hnone => rw [if_pos (hmissing hnone)]
    · rw [hentry]
      exact ih he

/-- What is held against a requirement passes if the whole value does. -/
theorem Reaches.ok (h : Reaches types r label v r' label' u)
    (hv : check types r label v = .ok ()) : check types r' label' u = .ok () := by
  cases hu : check types r' label' u with
  | ok _ => rfl
  | error e =>
    rw [h.error hu] at hv
    cases hv

/-- Where a value passes, a check comes to every place in it. -/
theorem Faces.exists_reaches (h : Faces types r v r' u) :
    ∀ {label}, check types r label v = .ok () → ∃ label', Reaches types r label v r' label' u := by
  induction h with
  | here r v => exact fun {label} _ => ⟨label, .here r label v⟩
  | @item r r' items v u hv _ ih =>
    intro label hall
    obtain ⟨_, ⟨rfl⟩, hitems⟩ := check_list_iff.1 hall
    obtain ⟨before, after, rfl⟩ := List.append_of_mem hv
    obtain ⟨label', h⟩ := ih (hitems v hv)
    exact ⟨label', .item before after (fun w hw => hitems w (List.mem_append_left _ hw)) h⟩
  | @member ps p members r' v u hp hv _ ih =>
    intro label hall
    obtain ⟨es, hes, hdeclared, hmet⟩ := check_record_iff.1 hall
    obtain rfl : members = es := Option.some.inj hes
    obtain ⟨before, after, rfl⟩ := List.append_of_mem hp
    rw [lookup_eq, Option.map_eq_some_iff] at hv
    obtain ⟨e, he, rfl⟩ := hv
    obtain ⟨label', h⟩ := ih ((hmet p hp).1 e he)
    refine ⟨label', .entry before after hes hdeclared (fun q hq => ?_) he h⟩
    exact hmet q (List.mem_append_left _ hq)

/-! ## Where a requirement comes from -/

theorem ObjectType.Contains.trans {o i q : ObjectType} (h : o.Contains i) (h' : i.Contains q) :
    o.Contains q := by
  induction h with
  | self => exact h'
  | inner hp ht _ ih => exact .inner hp ht (ih h')

/-- The records of a requirement are those of object types that stand in a type set. -/
def Requirement.Drawn (types : TypeSet) : Requirement → Prop
  | .primitive _ | .unresolved _ => True
  | .record ps => ∃ o, types.HasObject o ∧ o.properties = ps
  | .list r => r.Drawn types

theorem Requirement.Drawn.listIf (h : r.Drawn types) (isArray : Bool) :
    (Requirement.listIf isArray r).Drawn types := by
  cases isArray <;> exact h

theorem ObjectType.drawn {o : ObjectType} (h : types.HasObject o) : o.requirement.Drawn types :=
  Requirement.Drawn.listIf (r := .record o.properties) ⟨o, h, rfl⟩ o.isArray

theorem PropertyType.drawn {t : PropertyType} (h : ∀ o, t = .object o → types.HasObject o) :
    (t.requirement types).Drawn types := by
  cases t with
  | primitive kind => trivial
  | object o => exact o.drawn (h o rfl)
  | reference name =>
    rw [PropertyType.requirement]
    cases hr : types.resolve? name with
    | none => trivial
    | some decl =>
      obtain ⟨-, before, after, hs, -⟩ := resolve?_eq_some_iff.1 hr
      exact decl.body.drawn ⟨decl, by simp [hs], .self _⟩

theorem Property.drawn {o : ObjectType} {p : Property} (ho : types.HasObject o)
    (hp : p ∈ o.properties) : (p.requirement types).Drawn types := by
  refine (PropertyType.drawn fun i ht => ?_).listIf p.isArray
  obtain ⟨decl, hd, hc⟩ := ho
  exact ⟨decl, hd, hc.trans (.inner hp ht (.self i))⟩

/-- A check that starts with a requirement of a type set only comes to such requirements. -/
theorem Reaches.drawn (h : Reaches types r label v r' label' u) (hr : r.Drawn types) :
    r'.Drawn types := by
  induction h with
  | here => exact hr
  | item _ _ _ _ ih => exact ih hr
  | entry before after _ _ _ _ _ ih =>
    obtain ⟨o, ho, hps⟩ := hr
    exact ih (Property.drawn ho (by rw [hps]; simp))

/-! ## Indices are no names -/

/-- No property of a type set that was read from text is called like the first index. -/
theorem Requirement.Drawn.ne_zero {text : String} {T : TypeSet} {ps : List Property}
    (h : TypeSet.ofText text = .ok T) (hr : (Requirement.record ps).Drawn T) :
    ∀ p ∈ ps, p.name ≠ "0" := by
  obtain ⟨o, ho, rfl⟩ := hr
  intro p hp h0
  have hname := ((TypeSet.writable_of_ofText h).1.properties p ⟨o, ho, hp⟩).name
  rw [h0] at hname
  exact absurd hname (by decide)

theorem check_record_array_nil_iff {ps : List Property} :
    check types (.record ps) label (.array []) = .ok () ↔ ∀ p ∈ ps, p.isOptional = true := by
  have hes : Json.entries? (.array []) = some [] := rfl
  rw [check_record_iff, hes]
  simp [undeclared?, entryOf?]

theorem check_record_array_cons {ps : List Property} {item : Json} {items : List Json}
    (h : ∀ p ∈ ps, p.name ≠ "0") :
    check types (.record ps) label (.array (item :: items)) = .error (.extra "0") := by
  have hes : Json.entries? (.array (item :: items)) = some (indexed (item :: items)) := rfl
  have hfirst : undeclared? ps (indexed (item :: items)) = some ("0", item) := by
    have hnone : (!ps.any (·.name = "0")) = true := by simpa using h
    exact List.find?_cons_of_pos hnone
  rw [check_record_of_entries hes, hfirst]

/-! ## Checks of whole values -/

/-- **An array in place of an object lets no item through.** In a value that passes a schema read from
    text, an array that stands where a single object is asked for, at any depth and behind any
    references, is empty, and all properties of the object are optional. Whatever the value, when a
    check comes to an array in such a place that is not empty, its result is that the entry `0` is not
    declared. -/
theorem TypeSet.rawArrays {text : String} {T : TypeSet} {main : TypeDecl}
    (h : TypeSet.ofText text = .ok T) (hm : T.main? = some main) (v : Json) :
    (T.check v = .ok () → ∀ ps items,
      Faces T main.body.requirement v (.record ps) (.array items) →
        items = [] ∧ ∀ p ∈ ps, p.isOptional = true) ∧
    ∀ ps label items,
      Reaches T main.body.requirement rootLabel v (.record ps) label (.array items) →
        items ≠ [] → T.check v = .error (.extra "0") := by
  have hmain : main.body.requirement.Drawn T :=
    main.body.drawn ⟨main, List.mem_of_find?_eq_some hm, .self _⟩
  have hcheck : T.check v = Schema.check T main.body.requirement rootLabel v := by
    rw [TypeSet.check, hm]
  have hextra : ∀ ps label items,
      Reaches T main.body.requirement rootLabel v (.record ps) label (.array items) →
        items ≠ [] → T.check v = .error (.extra "0") := by
    intro ps label items hreach hne
    obtain ⟨item, items, rfl⟩ := List.exists_cons_of_ne_nil hne
    rw [hcheck]
    exact hreach.error (check_record_array_cons ((hreach.drawn hmain).ne_zero h))
  refine ⟨fun hok ps items hfaces => ?_, hextra⟩
  obtain ⟨label, hreach⟩ := hfaces.exists_reaches (hcheck ▸ hok)
  have hnil : items = [] := by
    by_contra hne
    rw [hextra ps label items hreach hne] at hok
    cases hok
  subst hnil
  exact ⟨rfl, check_record_array_nil_iff.1 (hreach.ok (hcheck ▸ hok))⟩

/-- A type that refers to itself: an empty array in its place passes, and one with an item is reported
    behind an item of the array around it that passes. -/
theorem TypeSet.rawArrays_rows :
    let text := "\x7b rows: Row[] \x7d type Row = \x7b next?: Row \x7d"
    let next : Property := ⟨"next", true, false, .reference "Row"⟩
    let rows : Property := ⟨"rows", false, true, .reference "Row"⟩
    let main : TypeDecl := ⟨"", ⟨[rows], false⟩⟩
    let T : TypeSet := ⟨[main, ⟨"Row", ⟨[next], false⟩⟩]⟩
    let row (items : List Json) : Json := .object [("next", .array items)]
    let v (items : List Json) : Json := .object [("rows", .array [row [], row items])]
    TypeSet.ofText text = .ok T ∧
      T.check (v []) = .ok () ∧
      Faces T main.body.requirement (v []) (.record [next]) (.array []) ∧
      (∀ p ∈ [next], p.isOptional = true) ∧
      Reaches T main.body.requirement rootLabel (v [.null]) (.record [next]) "next" (.array [.null]) ∧
      T.check (v [.null]) = .error (.extra "0") := by
  intro text next rows main T row v
  have hread : TypeSet.ofText text = .ok T := by decide +kernel
  have hm : T.main? = some main := rfl
  have hok : T.check (v []) = .ok () := toOption_eq_some_iff.1 (by decide +kernel)
  have hfaces : Faces T main.body.requirement (v []) (.record [next]) (.array []) :=
    .member (p := rows) (List.mem_singleton_self _) rfl
      (.item (v := row []) (by simp) (.member (List.mem_singleton_self _) rfl (.here _ _)))
  have hrow : Schema.check T (.record [next]) "rows" (row []) = .ok () :=
    toOption_eq_some_iff.1 (by decide +kernel)
  have hreach : Reaches T main.body.requirement rootLabel (v [.null]) (.record [next]) "next"
      (.array [.null]) :=
    .entry [] [] (p := rows) rfl rfl (by simp) rfl
      (.item [row []] [] (v := row [.null]) (List.forall_mem_singleton.2 hrow)
        (.entry [] [] (p := next) rfl rfl (by simp) rfl (.here _ _ _)))
  refine ⟨hread, hok, hfaces, ?_, hreach, ?_⟩
  · exact ((TypeSet.rawArrays hread hm (v [])).1 hok [next] [] hfaces).2
  · exact (TypeSet.rawArrays hread hm (v [.null])).2 [next] "next" [.null] hreach (by simp)

end TypedFlags.Schema
