import TypedFlags.Proofs.Json.Depth
import TypedFlags.Proofs.Schema.Conformance
/-!
# How deep a check goes

Holding a value against an object type may need the same of another object type: of one that stands
in a property, or of one that a property refers to. How many such checks are under way at once is not
limited by the schema, whose types may refer to each other in circles. It is limited by the value.

`checkObject` does what `check` does, object type by object type, but gives up where more than a given
number of these checks would be nested. So the least number with which it gets through is the number
of checks that are nested (`TypeSet.Nests`), and `TypeSet.nests_le` bounds it by the depth of the
value. What carries this is that a further check always gets something that stands **inside** the
value (`Json.depth_entry_lt`): following a reference does not, but what the reference leads to is only
held against what stands in an entry.
-/

set_option autoImplicit false

namespace TypedFlags.Schema

/-! ## A check that can give up -/

/-- What comes of a check that can give up: nothing if it does. -/
abbrev Bounded := ExceptT Violation Option Unit

/-- One value, or with an array flag the items of an array. -/
def eachIf (isArray : Bool) (label : String) (f : Json → Bounded) (v : Json) : Bounded :=
  if isArray then
    match v with
    | .array items => items.forM f
    | _ => throw (.notArray label)
  else f v

section
variable (types : TypeSet) (object : ObjectType → String → Json → Bounded)

/-- The type of a property, with a way to check object types. -/
def checkType (t : PropertyType) (label : String) (v : Json) : Bounded :=
  match t with
  | .primitive kind => if kind.admits v then pure () else throw (.notOfKind label kind)
  | .object o => object o label v
  | .reference name =>
    match types.resolve? name with
    | some decl => object decl.body label v
    | none => throw (.unresolved name)

/-- A property, with a way to check object types. -/
def checkProperty (p : Property) (v : Json) : Bounded :=
  eachIf p.isArray p.name (checkType types object p.type p.name) v

/-- A record of properties, with a way to check object types. -/
def checkProperties (ps : List Property) (label : String) (v : Json) : Bounded :=
  match v.entries? with
  | none => throw (.notObject label)
  | some entries =>
    match undeclared? ps entries with
    | some (name, _) => throw (.extra name)
    | none =>
      ps.forM fun p =>
        match entryOf? p.name entries with
        | some e => checkProperty types object p e.2
        | none => if p.isOptional then pure () else throw (.missing p.name)

end

/-- An object type, with at most `n` checks of object types nested, this one among them. -/
def checkObject (types : TypeSet) : Nat → ObjectType → String → Json → Bounded
  | 0, _, _, _ => none
  | n + 1, o, label, v =>
    eachIf o.isArray label (checkProperties types (checkObject types n) o.properties label) v

/-- Holds a value against the main type, with at most `n` checks of object types nested. -/
def TypeSet.checkWithin (types : TypeSet) (n : Nat) (v : Json) : Option (Except Violation Unit) :=
  match types.main? with
  | none => some (.error .noMainType)
  | some main => checkObject types n main.body rootLabel v

/-- Holding a value against a schema nests `n` checks of object types: with fewer allowed it gives up,
    and with as many or more it finds what it finds without a limit. -/
def TypeSet.Nests (types : TypeSet) (v : Json) (n : Nat) : Prop :=
  ∀ m, types.checkWithin m v = if n ≤ m then some (types.check v) else none

/-! ## Where nothing gives up -/

section
variable {types : TypeSet} {object : ObjectType → String → Json → Bounded} {label : String} {v : Json}

theorem forM_found {α : Type} {xs : List α} {f : α → Bounded} {g : α → Except Violation Unit}
    (h : ∀ x ∈ xs, f x = some (g x)) : xs.forM f = some (xs.forM g) := by
  induction xs with
  | nil => rfl
  | cons x xs ih =>
    obtain ⟨hx, hxs⟩ := List.forall_mem_cons.1 h
    show (f x >>= fun _ => xs.forM f) = some (g x >>= fun _ => xs.forM g)
    rw [hx, ih hxs]
    cases g x <;> rfl

theorem eachIf_found {isArray : Bool} {r : Requirement} {f : Json → Bounded}
    (hv : f v = some (check types r label v))
    (hitems : ∀ items, v = .array items → ∀ item ∈ items, f item = some (check types r label item)) :
    eachIf isArray label f v = some (check types (.listIf isArray r) label v) := by
  cases isArray with
  | false => exact hv
  | true =>
    rw [Requirement.listIf, if_pos rfl]
    cases v with
    | array items =>
      rw [check_list_array]
      exact forM_found (hitems items rfl)
    | _ => simp [check, eachIf, throw, throwThe, MonadExceptOf.throw, ExceptT.mk]

/-- A property type looks no deeper than the check of object types. -/
theorem checkType_found {t : PropertyType}
    (h : ∀ o label, object o label v = some (check types o.requirement label v)) :
    checkType types object t label v = some (check types (t.requirement types) label v) := by
  cases t with
  | primitive kind =>
    rw [checkType, PropertyType.requirement, check]
    cases kind.admits v <;> rfl
  | object o => exact h o label
  | reference name =>
    rw [checkType, PropertyType.requirement]
    cases types.resolve? name with
    | some decl => exact h decl.body label
    | none =>
      rw [check]
      rfl

theorem checkProperties_found {ps : List Property}
    (h : ∀ p u, u.depth < v.depth →
      checkProperty types object p u = some (check types (p.requirement types) p.name u)) :
    checkProperties types object ps label v = some (check types (.record ps) label v) := by
  unfold checkProperties
  cases hes : v.entries? with
  | none =>
    rw [check_record_of_none hes]
    rfl
  | some es =>
    rw [check_record_of_entries hes]
    dsimp only
    cases undeclared? ps es with
    | some e => rfl
    | none =>
      refine forM_found fun p _ => ?_
      cases he : entryOf? p.name es with
      | some e => exact h p e.2 (Json.depth_entry_lt hes (entryOf?_mem he))
      | none => cases p.isOptional <;> rfl

end

/-- **With more checks allowed than the value is deep, none gives up.** -/
theorem checkObject_found {types : TypeSet} {n : Nat} {v : Json} (h : v.depth < n) (o : ObjectType)
    (label : String) : checkObject types n o label v = some (check types o.requirement label v) := by
  induction n generalizing v o label with
  | zero => cases h
  | succ n ih =>
    have htype : ∀ u : Json, u.depth < n → ∀ (t : PropertyType) (label : String),
        checkType types (checkObject types n) t label u =
          some (check types (t.requirement types) label u) :=
      fun u hu t label => checkType_found fun o label => ih hu o label
    have hproperty : ∀ u : Json, u.depth < n → ∀ p : Property,
        checkProperty types (checkObject types n) p u =
          some (check types (p.requirement types) p.name u) := by
      intro u hu p
      refine eachIf_found (htype u hu p.type p.name) ?_
      rintro items rfl item hi
      exact htype item (Nat.lt_trans (Json.depth_item_lt hi) hu) p.type p.name
    -- What a record holds in its entries is less deep than the record, so one check less will do.
    have hrecord : ∀ u : Json, u.depth ≤ n → ∀ label : String,
        checkProperties types (checkObject types n) o.properties label u =
          some (check types (.record o.properties) label u) :=
      fun u hu label => checkProperties_found fun p w hw =>
        hproperty w (Nat.lt_of_lt_of_le hw hu) p
    have hv : v.depth ≤ n := Nat.le_of_lt_succ h
    refine eachIf_found (hrecord v hv label) ?_
    rintro items rfl item hi
    exact hrecord item (Nat.le_trans (Nat.le_of_lt (Json.depth_item_lt hi)) hv) label

/-! ## More allowed, the same found -/

/-- Where one check gets through, so does the other, and finds the same. -/
def Refines (a b : Bounded) : Prop :=
  ∀ r, a = some r → b = some r

section
variable {types : TypeSet} {f g : Json → Bounded} {object wide : ObjectType → String → Json → Bounded}

theorem Refines.refl (a : Bounded) : Refines a a := fun _ h => h

theorem Refines.forM {α : Type} {xs : List α} {f g : α → Bounded} (h : ∀ x, Refines (f x) (g x)) :
    Refines (xs.forM f) (xs.forM g) := by
  induction xs with
  | nil => exact .refl _
  | cons x xs ih =>
    intro r hr
    change (f x >>= fun _ => xs.forM f) = some r at hr
    show (g x >>= fun _ => xs.forM g) = some r
    cases hx : f x with
    | none =>
      rw [hx] at hr
      cases hr
    | some found =>
      rw [hx] at hr
      rw [h x found hx]
      cases found with
      | error e => exact hr
      | ok _ => exact ih r hr

theorem Refines.eachIf {isArray : Bool} {label : String} (h : ∀ v, Refines (f v) (g v)) (v : Json) :
    Refines (eachIf isArray label f v) (eachIf isArray label g v) := by
  unfold Schema.eachIf
  split
  · split
    · exact .forM h
    · exact .refl _
  · exact h v

theorem Refines.checkType (h : ∀ o label v, Refines (object o label v) (wide o label v))
    (t : PropertyType) (label : String) (v : Json) :
    Refines (checkType types object t label v) (checkType types wide t label v) := by
  cases t with
  | primitive kind => exact .refl _
  | object o => exact h o label v
  | reference name =>
    rw [Schema.checkType, Schema.checkType]
    cases types.resolve? name with
    | some decl => exact h decl.body label v
    | none => exact .refl _

theorem Refines.checkProperties (h : ∀ o label v, Refines (object o label v) (wide o label v))
    (ps : List Property) (label : String) (v : Json) :
    Refines (checkProperties types object ps label v) (checkProperties types wide ps label v) := by
  unfold Schema.checkProperties
  cases v.entries? with
  | none => exact .refl _
  | some es =>
    dsimp only
    cases undeclared? ps es with
    | some e => exact .refl _
    | none =>
      refine .forM fun p => ?_
      cases entryOf? p.name es with
      | some e => exact .eachIf (Refines.checkType h p.type p.name) e.2
      | none => exact .refl _

end

theorem checkObject_refines (types : TypeSet) {n m : Nat} (h : n ≤ m) (o : ObjectType)
    (label : String) (v : Json) :
    Refines (checkObject types n o label v) (checkObject types m o label v) := by
  induction n generalizing m o label v with
  | zero =>
    intro r hr
    cases hr
  | succ n ih =>
    obtain ⟨m, rfl⟩ : ∃ k, m = k + 1 := ⟨m - 1, by omega⟩
    exact .eachIf (Refines.checkProperties (ih (Nat.le_of_succ_le_succ h)) o.properties label) v

/-! ## The bound -/

namespace TypeSet

theorem checkWithin_refines (types : TypeSet) {n m : Nat} (h : n ≤ m) (v : Json) :
    Refines (types.checkWithin n v) (types.checkWithin m v) := by
  unfold checkWithin
  cases types.main? with
  | none => exact .refl _
  | some main => exact checkObject_refines types h main.body rootLabel v

theorem checkWithin_found (types : TypeSet) {n : Nat} {v : Json} (h : v.depth < n) :
    types.checkWithin n v = some (types.check v) := by
  unfold checkWithin check
  cases types.main? with
  | none => rfl
  | some main => exact checkObject_found h main.body rootLabel

/-- Whatever is allowed, what is found is what is found without a limit. -/
theorem checkWithin_sound {types : TypeSet} {n : Nat} {v : Json} {r : Except Violation Unit}
    (h : types.checkWithin n v = some r) : r = types.check v := by
  have hwide := types.checkWithin_refines (Nat.le_max_left n (v.depth + 1)) v r h
  rw [types.checkWithin_found (Nat.le_max_right n (v.depth + 1)), Option.some.injEq] at hwide
  exact hwide.symm

theorem exists_nests (types : TypeSet) (v : Json) : ∃ n ≤ v.depth + 1, types.Nests v n := by
  have hex : ∃ n, (types.checkWithin n v).isSome :=
    ⟨v.depth + 1, by rw [types.checkWithin_found (Nat.lt_succ_self _)]; rfl⟩
  refine ⟨Nat.find hex, Nat.find_min' hex ?_, fun m => ?_⟩
  · rw [types.checkWithin_found (Nat.lt_succ_self _)]
    rfl
  · split
    · next hm =>
      obtain ⟨r, hr⟩ := Option.isSome_iff_exists.1 (Nat.find_spec hex)
      rw [types.checkWithin_refines hm v r hr, checkWithin_sound hr]
    · next hm =>
      exact Option.not_isSome_iff_eq_none.1 (Nat.find_min hex (Nat.lt_of_not_le hm))

theorem nests_of_depth_le (types : TypeSet) {v : Json} (h : v.depth ≤ Json.maxDepth) :
    ∃ n ≤ 128, types.Nests v n := by
  obtain ⟨n, hn, hnests⟩ := types.exists_nests v
  exact ⟨n, Nat.le_trans hn (Nat.succ_le_succ h), hnests⟩

theorem checkLiteral_eq (types : TypeSet) {literal : String} {v : Json}
    (h : Literal.read literal = .ok v) : types.checkLiteral literal = types.check v := by
  unfold checkLiteral
  cases hm : types.main? with
  | none => rw [check, hm]
  | some main => rw [h]

/-- **Checks of object types are nested no deeper than the value**, in every schema, those included
    whose types refer to themselves or to each other: at most one more than the value has levels of
    arrays and objects. What a text or a literal writes has at most `Json.maxDepth` levels, so there
    the checks are nested at most 128 deep. -/
theorem nests_le (types : TypeSet) :
    (∀ v : Json, ∃ n ≤ v.depth + 1, types.Nests v n) ∧
      (∀ (text : String) (v : Json), Json.readValue text = .ok v → ∃ n ≤ 128, types.Nests v n) ∧
      ∀ (literal : String) (v : Json), Literal.read literal = .ok v →
        types.checkLiteral literal = types.check v ∧ ∃ n ≤ 128, types.Nests v n := by
  refine ⟨types.exists_nests, fun text v h => ?_, fun literal v h => ?_⟩
  · exact types.nests_of_depth_le (Json.depth_le_of_readValue h)
  · exact ⟨types.checkLiteral_eq h, types.nests_of_depth_le (Json.depth_le_of_readValue h)⟩

/-- A type that refers to itself, and a value two levels deep: three checks are nested. -/
example :
    let types : TypeSet := ⟨[⟨"", ⟨[⟨"next", true, false, .reference "node"⟩], false⟩⟩,
      ⟨"node", ⟨[⟨"next", true, false, .reference "node"⟩], false⟩⟩]⟩
    let v : Json := .object [("next", .object [("next", .object [])])]
    types.checkWithin 2 v = none ∧ types.checkWithin 3 v = some (.ok ()) := by
  cbv

end TypeSet

end TypedFlags.Schema
