import TypedFlags.Proofs.Json.Settling
import TypedFlags.Proofs.Schema.Conformance
import TypedFlags.Proofs.Schema.WellFormed
/-!
# Order does not decide

A type set is a list of types with lists of properties, and an object is a list of members. The order
of none of these lists decides whether a value passes (`TypeSet.check_reordered`): types and properties
may be put in another order, at every depth, and so may the members of the objects in the value.

The two are shown one after the other. Of the schema nothing is needed but that its types have
different names, which reading sees to: then a reference means the same type in every order. For the
value it is shown that what is reported stays the same too, but for one thing: which of several
entries that are not declared comes first (`Alike`). There the members have to have different names, as
they have in every value that is settled.
-/

set_option autoImplicit false

namespace TypedFlags

/-! ## The relations -/

mutual

/-- Two values differ at most in the order of the members of their objects, at any depth. -/
inductive Json.Reordered : Json → Json → Prop
  | refl (v : Json) : Json.Reordered v v
  | array {items items' : List Json} (h : List.Forall₂ Json.Reordered items items') :
      Json.Reordered (.array items) (.array items')
  | object {ms ns ms' : List (String × Json)} (hp : ms.Perm ns)
      (h : List.Forall₂ Json.MemberReordered ns ms') : Json.Reordered (.object ms) (.object ms')

/-- Two members have one name, and values that differ at most in order. -/
inductive Json.MemberReordered : String × Json → String × Json → Prop
  | intro (name : String) {v v' : Json} (h : Json.Reordered v v') :
      Json.MemberReordered (name, v) (name, v')

end

namespace Json

theorem MemberReordered.name {m m' : String × Json} (h : MemberReordered m m') : m.1 = m'.1 := by
  cases h
  rfl

theorem MemberReordered.value {m m' : String × Json} (h : MemberReordered m m') :
    m.2.Reordered m'.2 := by
  cases h
  assumption

end Json

namespace Schema

mutual

/-- Two property types differ at most in the order of the properties in their objects. -/
inductive PropertyType.Reordered : PropertyType → PropertyType → Prop
  | primitive (kind : Primitive) : PropertyType.Reordered (.primitive kind) (.primitive kind)
  | reference (name : String) : PropertyType.Reordered (.reference name) (.reference name)
  | object {o o' : ObjectType} (h : ObjectType.Reordered o o') :
      PropertyType.Reordered (.object o) (.object o')

/-- Two properties are the same but for the order inside their types. -/
inductive Property.Reordered : Property → Property → Prop
  | intro (name : String) (isOptional isArray : Bool) {t t' : PropertyType}
      (h : PropertyType.Reordered t t') :
      Property.Reordered ⟨name, isOptional, isArray, t⟩ ⟨name, isOptional, isArray, t'⟩

/-- Two object types differ at most in the order of properties, at any depth. -/
inductive ObjectType.Reordered : ObjectType → ObjectType → Prop
  | intro (isArray : Bool) {ps qs ps' : List Property} (hp : ps.Perm qs)
      (h : List.Forall₂ Property.Reordered qs ps') :
      ObjectType.Reordered ⟨ps, isArray⟩ ⟨ps', isArray⟩

end

/-- Two types have one name, and bodies that differ at most in order. -/
structure TypeDecl.Reordered (decl decl' : TypeDecl) : Prop where
  name : decl.name = decl'.name
  body : decl.body.Reordered decl'.body

/-- Two type sets differ at most in the order of their types, and of the properties in these. -/
def TypeSet.Reordered (T T' : TypeSet) : Prop :=
  ∃ decls, T.types.Perm decls ∧ List.Forall₂ TypeDecl.Reordered decls T'.types

/-- Two results of a check are the same, or both are that an entry is not declared. -/
def Alike (r r' : Except Violation Unit) : Prop :=
  r = r' ∨ ∃ m n, r = .error (.extra m) ∧ r' = .error (.extra n)

/-! ## Lists in another order -/

section
variable {α : Type} {R : α → α → Prop} {name : α → String} {xs ys zs : List α}

theorem forall_mem_iff_of_reordered {P Q : α → Prop} (hp : xs.Perm zs) (h : List.Forall₂ R zs ys)
    (hR : ∀ x y, R x y → (P x ↔ Q y)) : (∀ x ∈ xs, P x) ↔ ∀ y ∈ ys, Q y := by
  have hzs : (∀ x ∈ xs, P x) ↔ ∀ z ∈ zs, P z := forall_congr' fun _ => imp_congr_left hp.mem_iff
  rw [hzs]
  clear hzs hp
  induction h with
  | nil => simp
  | cons hxy _ ih =>
    rw [List.forall_mem_cons, List.forall_mem_cons]
    exact and_congr (hR _ _ hxy) ih

theorem exists_mem_iff_of_reordered {P Q : α → Prop} (hp : xs.Perm zs) (h : List.Forall₂ R zs ys)
    (hR : ∀ x y, R x y → (P x ↔ Q y)) : (∃ x ∈ xs, P x) ↔ ∃ y ∈ ys, Q y := by
  have hnot := forall_mem_iff_of_reordered hp h fun x y hxy => not_congr (hR x y hxy)
  simpa using not_congr hnot

/-- Where no name is repeated, the order does not matter to a look-up. -/
theorem find?_perm (hn : (xs.map name).Nodup) (hp : xs.Perm ys) (n : String) :
    xs.find? (name · = n) = ys.find? (name · = n) := by
  cases hx : xs.find? (name · = n) with
  | none =>
    rw [List.find?_eq_none] at hx
    exact (List.find?_eq_none.2 fun y hy => hx y (hp.mem_iff.2 hy)).symm
  | some x =>
    have hname : name x = n := by simpa using List.find?_some hx
    subst hname
    have hy : x ∈ ys := hp.mem_iff.1 (List.mem_of_find?_eq_some hx)
    exact (find?_of_nodup ((hp.map name).nodup_iff.1 hn) hy).symm

theorem find?_forall₂ (hR : ∀ x y, R x y → name x = name y) (h : List.Forall₂ R xs ys)
    (n : String) : Option.Rel R (xs.find? (name · = n)) (ys.find? (name · = n)) := by
  induction h with
  | nil => exact .none
  | @cons x y _ _ hxy _ ih =>
    have hname := hR x y hxy
    by_cases hx : name x = n
    · rw [List.find?_cons_of_pos (by simpa using hx),
        List.find?_cons_of_pos (by simpa using hname ▸ hx)]
      exact .some hxy
    · rw [List.find?_cons_of_neg (by simpa using hx),
        List.find?_cons_of_neg (by simpa using hname ▸ hx)]
      exact ih

theorem cases_of_rel {a b : Option α} (h : Option.Rel R a b) :
    (a = none ∧ b = none) ∨ ∃ x y, a = some x ∧ b = some y ∧ R x y := by
  cases h with
  | none => exact .inl ⟨rfl, rfl⟩
  | some h => exact .inr ⟨_, _, rfl, rfl, h⟩

end

/-! ## The schema in another order -/

/-- In two type sets a name means types that differ at most in order. -/
def SameTypes (T T' : TypeSet) : Prop :=
  ∀ n, Option.Rel TypeDecl.Reordered (T.types.find? (·.name = n)) (T'.types.find? (·.name = n))

theorem TypeSet.Reordered.sameTypes {T T' : TypeSet} (h : T.Reordered T')
    (hn : (T.types.map (·.name)).Nodup) : SameTypes T T' := by
  obtain ⟨decls, hp, hd⟩ := h
  intro n
  rw [find?_perm hn hp]
  refine find?_forall₂ ?_ hd n
  intro decl decl' h
  exact h.name

/-- Two requirements differ at most in the order of properties. -/
inductive Requirement.Reordered : Requirement → Requirement → Prop
  | primitive (kind : Primitive) : Requirement.Reordered (.primitive kind) (.primitive kind)
  | record {ps qs ps' : List Property} (hp : ps.Perm qs)
      (h : List.Forall₂ Property.Reordered qs ps') : Requirement.Reordered (.record ps) (.record ps')
  | list {r r' : Requirement} (h : Requirement.Reordered r r') :
      Requirement.Reordered (.list r) (.list r')
  | unresolved (name : String) : Requirement.Reordered (.unresolved name) (.unresolved name)

theorem Requirement.Reordered.listIf {r r' : Requirement} (h : r.Reordered r') (isArray : Bool) :
    (Requirement.listIf isArray r).Reordered (.listIf isArray r') := by
  cases isArray with
  | false => exact h
  | true => exact .list h

theorem ObjectType.Reordered.requirement {o o' : ObjectType} (h : o.Reordered o') :
    o.requirement.Reordered o'.requirement := by
  cases h with
  | intro isArray hp h => exact (Requirement.Reordered.record hp h).listIf isArray

section
variable {T T' : TypeSet}

theorem PropertyType.Reordered.requirement (hT : SameTypes T T') {t t' : PropertyType}
    (h : t.Reordered t') : (t.requirement T).Reordered (t'.requirement T') := by
  cases h with
  | primitive kind => exact .primitive kind
  | object h => exact h.requirement
  | reference name =>
    unfold PropertyType.requirement TypeSet.resolve?
    by_cases hn : name = ""
    · simp only [hn, if_pos]
      exact .unresolved ""
    · simp only [hn, if_neg, not_false_eq_true]
      rcases cases_of_rel (hT name) with ⟨hf, hf'⟩ | ⟨decl, decl', hf, hf', hd⟩
      · rw [hf, hf']
        exact .unresolved name
      · rw [hf, hf']
        exact hd.body.requirement

theorem Property.Reordered.requirement (hT : SameTypes T T') {p p' : Property}
    (h : p.Reordered p') : (p.requirement T).Reordered (p'.requirement T') := by
  cases h with
  | intro name isOptional isArray h => exact (h.requirement hT).listIf isArray

theorem undeclared?_none_of_reordered {ps qs ps' : List Property} (hp : ps.Perm qs)
    (h : List.Forall₂ Property.Reordered qs ps') (es : List (String × Json)) :
    undeclared? ps es = none ↔ undeclared? ps' es = none := by
  rw [undeclared?_eq_none_iff, undeclared?_eq_none_iff]
  refine forall₂_congr fun e _ => exists_mem_iff_of_reordered hp h fun p p' hpp => ?_
  cases hpp
  rfl

/-- **What meets a requirement meets it in every order.** -/
theorem check_ok_iff_of_reordered (hT : SameTypes T T') {r r' : Requirement} (h : r.Reordered r')
    (label label' : String) (v : Json) :
    check T r label v = .ok () ↔ check T' r' label' v = .ok () := by
  -- On the value, as a reference leads to types that need not be smaller.
  induction hsize : sizeOf v using Nat.strongRecOn generalizing v r r' label label' with
  | ind size ih =>
    subst hsize
    cases h with
    | primitive kind => rw [check_primitive_iff, check_primitive_iff]
    | unresolved name => exact iff_of_false check_unresolved check_unresolved
    | list h =>
      rw [check_list_iff, check_list_iff]
      refine exists_congr fun items => and_congr_right ?_
      rintro rfl
      exact forall₂_congr fun item hi =>
        ih _ (Json.sizeOf_item_lt hi) h label label' item rfl
    | record hp h =>
      rw [check_record_iff, check_record_iff]
      refine exists_congr fun es => and_congr_right fun hes => ?_
      refine and_congr (undeclared?_none_of_reordered hp h es) ?_
      refine forall_mem_iff_of_reordered hp h fun p p' hpp => ?_
      have hr := hpp.requirement hT
      cases hpp with
      | intro name isOptional isArray ht =>
        refine and_congr (forall₂_congr fun e he => ?_) Iff.rfl
        exact ih _ (Json.sizeOf_entry_lt hes (entryOf?_mem he)) hr name name e.2 rfl

theorem TypeSet.check_ok_iff_of_reordered (h : T.Reordered T')
    (hn : (T.types.map (·.name)).Nodup) (v : Json) :
    T.check v = .ok () ↔ T'.check v = .ok () := by
  have hT := h.sameTypes hn
  have hmain : Option.Rel TypeDecl.Reordered T.main? T'.main? := hT ""
  unfold TypeSet.check
  rcases cases_of_rel hmain with ⟨hm, hm'⟩ | ⟨main, main', hm, hm', hd⟩
  · rw [hm, hm']
  · rw [hm, hm']
    exact Schema.check_ok_iff_of_reordered hT hd.body.requirement rootLabel rootLabel v

end

/-! ## The value in another order -/

theorem Alike.refl (r : Except Violation Unit) : Alike r r := .inl rfl

/-- What stops at the first violation finds alike violations where each step does. -/
theorem forM_alike {α β : Type} {f : α → Except Violation Unit} {g : β → Except Violation Unit}
    {xs : List α} {ys : List β} (h : List.Forall₂ (fun x y => Alike (f x) (g y)) xs ys) :
    Alike (xs.forM f) (ys.forM g) := by
  induction h with
  | nil => exact .refl _
  | @cons x y xs ys hxy _ ih =>
    show Alike (f x >>= fun _ => xs.forM f) (g y >>= fun _ => ys.forM g)
    rcases hxy with he | ⟨m, n, hm, hn⟩
    · rw [he]
      cases g y with
      | error e => exact .refl _
      | ok _ => exact ih
    · rw [hm, hn]
      exact .inr ⟨m, n, rfl, rfl⟩

/-- Entries under the same names, which differ at most in order inside. -/
def SameEntries (es es' : List (String × Json)) : Prop :=
  ∀ name, Option.Rel Json.MemberReordered (entryOf? name es) (entryOf? name es')

theorem indexed_reordered {items items' : List Json} (h : List.Forall₂ Json.Reordered items items') :
    List.Forall₂ Json.MemberReordered (indexed items) (indexed items') := by
  unfold indexed
  generalize 0 = k
  induction h generalizing k with
  | nil => exact .nil
  | cons h _ ih =>
    rw [List.zipIdx_cons, List.zipIdx_cons]
    exact .cons (.intro (toString k) h) (ih (k + 1))

/-- **What an object type looks at is the same in every order.** -/
theorem entries_reordered {v v' : Json} (hv : v.Settled) (h : v.Reordered v') :
    Option.Rel SameEntries v.entries? v'.entries? := by
  cases h with
  | refl =>
    cases v.entries? with
    | none => exact .none
    | some es =>
      refine .some fun name => ?_
      cases entryOf? name es with
      | none => exact .none
      | some e => exact .some (.intro e.1 (.refl e.2))
  | array h => exact .some (find?_forall₂ (fun _ _ h => h.name) (indexed_reordered h))
  | object hp h =>
    refine .some fun name => ?_
    have hn := (Json.settled_object_iff.1 hv).nodup
    show Option.Rel _ (List.find? _ _) (List.find? _ _)
    rw [find?_perm hn hp]
    exact find?_forall₂ (fun _ _ h => h.name) h name

theorem SameEntries.undeclared? {es es' : List (String × Json)} (h : SameEntries es es')
    (ps : List Property) : undeclared? ps es = none ↔ undeclared? ps es' = none := by
  have hnone : ∀ n, entryOf? n es = none ↔ entryOf? n es' = none := by
    intro n
    rcases cases_of_rel (h n) with ⟨he, he'⟩ | ⟨e, e', he, he', -⟩
    · simp [he, he']
    · simp [he, he']
  have hnames : ∀ fs : List (String × Json),
      Schema.undeclared? ps fs = none ↔ ∀ n, entryOf? n fs ≠ none → ∃ p ∈ ps, p.name = n := by
    intro fs
    simp [undeclared?_eq_none_iff, entryOf?_eq_none_iff]
  rw [hnames, hnames]
  exact forall_congr' fun n => imp_congr_left (not_congr (hnone n))

theorem admits_of_reordered {v v' : Json} (h : v.Reordered v') (kind : Primitive) :
    kind.admits v = kind.admits v' := by
  cases h with
  | refl => rfl
  | array | object => cases kind <;> rfl

/-- **What a value gives it gives in every order**, but for the name of an entry that is not
    declared. -/
theorem check_alike (types : TypeSet) {v v' : Json} (hv : v.Settled) (h : v.Reordered v')
    (r : Requirement) (label : String) : Alike (check types r label v) (check types r label v') := by
  induction hsize : sizeOf v using Nat.strongRecOn generalizing v v' r label with
  | ind size ih =>
    subst hsize
    cases r with
    | primitive kind =>
      rw [check, check, admits_of_reordered h kind]
      exact .refl _
    | unresolved name =>
      rw [check, check]
      exact .refl _
    | list r =>
      cases h with
      | refl => exact .refl _
      | object hp h => exact .inl (by simp [check])
      | @array items items' h =>
        rw [check_list_array, check_list_array]
        -- An item is smaller than the array and settled like it.
        have hitems : ∀ item ∈ items, item.Settled ∧ sizeOf item < sizeOf (Json.array items) :=
          fun item hi => ⟨Json.settled_array_iff.1 hv item hi, Json.sizeOf_item_lt hi⟩
        refine forM_alike ((List.forall₂_and_left items items').2 ⟨hitems, h⟩ |>.imp ?_)
        rintro item item' ⟨⟨hsettled, hlt⟩, hre⟩
        exact ih _ hlt hsettled hre r label rfl
    | record ps =>
      rcases cases_of_rel (entries_reordered hv h) with ⟨hes, hes'⟩ | ⟨es, es', hes, hes', hsame⟩
      · rw [check_record_of_none hes, check_record_of_none hes']
        exact .refl _
      rw [check_record_of_entries hes, check_record_of_entries hes']
      cases hu : undeclared? ps es with
      | some e =>
        have hne : undeclared? ps es' ≠ none := mt (hsame.undeclared? ps).2 (by simp [hu])
        obtain ⟨e', hu'⟩ := Option.ne_none_iff_exists'.1 hne
        rw [hu']
        exact .inr ⟨e.1, e'.1, rfl, rfl⟩
      | none =>
        rw [(hsame.undeclared? ps).1 hu]
        refine forM_alike (List.forall₂_same.2 fun p _ => ?_)
        rcases cases_of_rel (hsame p.name) with ⟨he, he'⟩ | ⟨e, e', he, he', hm⟩
        · rw [he, he']
          exact .refl _
        · rw [he, he']
          have hmem := entryOf?_mem he
          exact ih _ (Json.sizeOf_entry_lt hes hmem) (Json.settled_entry hv hes hmem) hm.value
            (p.requirement types) p.name rfl

theorem TypeSet.check_alike (types : TypeSet) {v v' : Json} (hv : v.Settled) (h : v.Reordered v') :
    Alike (types.check v) (types.check v') := by
  unfold TypeSet.check
  cases types.main? with
  | none => exact .refl _
  | some main => exact Schema.check_alike types hv h main.body.requirement rootLabel

/-! ## Schema and value in another order -/

theorem Alike.ok_iff {r r' : Except Violation Unit} (h : Alike r r') :
    r = .ok () ↔ r' = .ok () := by
  rcases h with rfl | ⟨m, n, rfl, rfl⟩
  · exact Iff.rfl
  · exact iff_of_false (by simp) (by simp)

theorem TypeSet.names_nodup_of_ofText {text : String} {T : TypeSet}
    (h : TypeSet.ofText text = .ok T) : (T.types.map (·.name)).Nodup := by
  obtain ⟨ls, -, -, htokens⟩ := TypeSet.ofText_eq_ok_iff.1 h
  exact (TypeSet.ofTokens_iff_scans.1 htokens).2.2.nodup

/-- **Order does not decide acceptance.** A value passes a schema that was read from text exactly if
    it passes in any order of its members, at any depth, and in any order of the types of the schema
    and of their properties. Where only the value is put in another order, even the result is the
    same, but for the name if there is an entry that is not declared. -/
theorem TypeSet.check_reordered {text : String} {T T' : TypeSet} {v v' : Json}
    (hT : TypeSet.ofText text = .ok T) (hTT : T.Reordered T') (hv : v.Settled)
    (hvv : v.Reordered v') :
    (T.check v = .ok () ↔ T'.check v' = .ok ()) ∧ Alike (T.check v) (T.check v') := by
  have halike := T.check_alike hv hvv
  have hnames := TypeSet.names_nodup_of_ofText hT
  exact ⟨halike.ok_iff.trans (TypeSet.check_ok_iff_of_reordered hTT hnames v'), halike⟩

/-- Types, their properties and the members of a value, all in another order. -/
theorem TypeSet.check_reordered_points :
    let text := "\x7b from: Point, to?: Point \x7d interface Point \x7b x: number, y: number \x7d"
    let number (name : String) : Property := ⟨name, false, false, .primitive .number⟩
    let point (name : String) (isOptional : Bool) : Property :=
      ⟨name, isOptional, false, .reference "Point"⟩
    let T : TypeSet := ⟨[⟨"", ⟨[point "from" false, point "to" true], false⟩⟩,
      ⟨"Point", ⟨[number "x", number "y"], false⟩⟩]⟩
    let T' : TypeSet := ⟨[⟨"Point", ⟨[number "y", number "x"], false⟩⟩,
      ⟨"", ⟨[point "to" true, point "from" false], false⟩⟩]⟩
    let one : Json := .number (.integer 1 (by decide))
    let two : Json := .number (.integer 2 (by decide))
    let v : Json := .object [("from", .object [("x", one), ("y", two)])]
    let v' : Json := .object [("from", .object [("y", two), ("x", one)])]
    TypeSet.ofText text = .ok T ∧ T.Reordered T' ∧ v.Settled ∧ v.Reordered v' ∧
      (T.check v = .ok () ↔ T'.check v' = .ok ()) ∧ Alike (T.check v) (T.check v') := by
  intro text number point T T' one two v v'
  have hT : TypeSet.ofText text = .ok T := by decide +kernel
  have hbody : ∀ (p q : Property), p.Reordered p → q.Reordered q →
      (ObjectType.mk [p, q] false).Reordered ⟨[q, p], false⟩ := fun p q hp hq =>
    .intro false (.swap q p []) (.cons hq (.cons hp .nil))
  have hnumber : ∀ name, (number name).Reordered (number name) := fun name =>
    .intro name false false (.primitive .number)
  have hpoint : ∀ name isOptional, (point name isOptional).Reordered (point name isOptional) :=
    fun name isOptional => .intro name isOptional false (.reference "Point")
  have hTT : T.Reordered T' :=
    ⟨_, .swap _ _ [], .cons ⟨rfl, hbody _ _ (hnumber "x") (hnumber "y")⟩
      (.cons ⟨rfl, hbody _ _ (hpoint "from" false) (hpoint "to" true)⟩ .nil)⟩
  have hv : v.Settled := rfl
  have hvv : v.Reordered v' :=
    .object (.refl _) (.cons (.intro "from" (.object (.swap _ _ [])
      (.cons (.intro "y" (.refl two)) (.cons (.intro "x" (.refl one)) .nil)))) .nil)
  exact ⟨hT, hTT, hv, hvv, TypeSet.check_reordered hT hTT hv hvv⟩

/-- Which of two entries is reported that are not declared depends on their order. -/
example :
    let T : TypeSet := ⟨[⟨"", ⟨[], false⟩⟩]⟩
    T.check (.object [("a", .null), ("b", .null)]) = .error (.extra "a") ∧
      T.check (.object [("b", .null), ("a", .null)]) = .error (.extra "b") := by
  cbv

end Schema
end TypedFlags
