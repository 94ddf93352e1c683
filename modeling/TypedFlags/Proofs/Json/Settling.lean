import Mathlib.Data.List.Nodup
import TypedFlags.Json.Basic
/-!
# Settled documents

Settling is done once: the value of a document has no repeated name left in it, so it is its own value
(`settled_settle`). An object is settled exactly if its names differ and its values are settled
(`settled_object_iff`); this is what each step of the loop over the members keeps.
-/

set_option autoImplicit false

namespace TypedFlags.Json

/-! ## Putting a member into an object -/

section
variable {α : Type} {name : String} {value : α} {ms : List (String × α)}

theorem names_put : (put name value ms).map (·.1) =
    if name ∈ ms.map (·.1) then ms.map (·.1) else ms.map (·.1) ++ [name] := by
  induction ms with
  | nil => rfl
  | cons m ms ih =>
    obtain ⟨n, v⟩ := m
    rw [put]
    by_cases h : n = name
    · simp [h]
    · have hne : name ≠ n := Ne.symm h
      rw [if_neg h, List.map_cons, ih, List.map_cons]
      simp only [List.mem_cons, hne, false_or]
      split <;> rfl

theorem nodup_put (h : (ms.map (·.1)).Nodup) : ((put name value ms).map (·.1)).Nodup := by
  rw [names_put]
  split
  · exact h
  · next hn =>
    refine List.nodup_append.2 ⟨h, List.nodup_singleton _, ?_⟩
    rintro n hm _ hname rfl
    exact hn (List.mem_singleton.1 hname ▸ hm)

theorem mem_put {m : String × α} (h : m ∈ put name value ms) : m = (name, value) ∨ m ∈ ms := by
  induction ms with
  | nil => exact .inl (List.mem_singleton.1 h)
  | cons l ms ih =>
    obtain ⟨n, v⟩ := l
    rw [put] at h
    split at h
    · rcases List.mem_cons.1 h with h | h
      · exact .inl h
      · exact .inr (List.mem_cons_of_mem _ h)
    · rcases List.mem_cons.1 h with h | h
      · exact .inr (List.mem_cons.2 (.inl h))
      · exact (ih h).imp_right (List.mem_cons_of_mem _)

theorem put_of_not_mem (h : name ∉ ms.map (·.1)) : put name value ms = ms ++ [(name, value)] := by
  induction ms with
  | nil => rfl
  | cons m ms ih =>
    obtain ⟨n, v⟩ := m
    rw [List.map_cons, List.mem_cons, not_or] at h
    rw [put, if_neg (Ne.symm h.1), ih h.2, List.cons_append]

end

/-! ## What is settled -/

/-- Members of a settled object. -/
structure SettledMembers (ms : List (String × Json)) : Prop where
  nodup : (ms.map (·.1)).Nodup
  values : ∀ m ∈ ms, m.2.Settled

theorem settleMembers_of_nodup {done ms : List (String × Json)}
    (h : ((done ++ ms).map (·.1)).Nodup) :
    settleMembers done ms = done ++ ms.map fun m => (m.1, m.2.settle) := by
  induction ms generalizing done with
  | nil => simp [settleMembers]
  | cons m ms ih =>
    obtain ⟨n, v⟩ := m
    have hn : n ∉ done.map (·.1) := by
      rw [List.map_append, List.nodup_append] at h
      intro hm
      exact h.2.2 n hm n (by simp) rfl
    have hrest : ((done ++ [(n, v.settle)] ++ ms).map (·.1)).Nodup := by
      simpa using h
    rw [settleMembers, put_of_not_mem hn, ih hrest]
    simp

/-- An object is settled if its names differ and its values are settled. -/
theorem SettledMembers.settled {ms : List (String × Json)} (h : SettledMembers ms) :
    (Json.object ms).Settled := by
  have hvalues : (ms.map fun m => (m.1, m.2.settle)) = ms := by
    conv_rhs => rw [← List.map_id ms]
    exact List.map_congr_left fun m hm => Prod.ext rfl (h.values m hm)
  rw [Settled, settle, settleMembers_of_nodup (by simpa using h.nodup), hvalues, List.nil_append]

theorem settleItems_eq (items : List Json) : settleItems items = items.map settle := by
  induction items with
  | nil => rfl
  | cons v items ih => rw [settleItems, ih, List.map_cons]

theorem settled_array {items : List Json} (h : ∀ v ∈ items, v.Settled) :
    (Json.array items).Settled := by
  have hitems : items.map settle = items := by
    conv_rhs => rw [← List.map_id items]
    exact List.map_congr_left h
  rw [Settled, settle, settleItems_eq, hitems]

/-- Putting a settled value into a settled object leaves it settled. -/
theorem SettledMembers.put {ms : List (String × Json)} (h : SettledMembers ms) (name : String)
    {v : Json} (hv : v.Settled) : SettledMembers (Json.put name v ms) where
  nodup := nodup_put h.nodup
  values m hm := by
    rcases mem_put hm with rfl | hm
    · exact hv
    · exact h.values m hm

mutual

/-- **What has been settled is settled.** -/
theorem settled_settle : ∀ v : Json, v.settle.Settled
  | .array items => by
    rw [settle]
    exact settled_array (settled_settleItems items)
  | .object members => by
    have hnil : SettledMembers [] := ⟨.nil, List.forall_mem_nil _⟩
    rw [settle]
    exact (settledMembers_settleMembers members hnil).settled
  | .null | .bool _ | .number _ | .string _ => rfl
termination_by v => sizeOf v

theorem settled_settleItems : ∀ (items : List Json), ∀ v ∈ settleItems items, v.Settled
  | [] => by simp [settleItems]
  | item :: items => by
    rw [settleItems, List.forall_mem_cons]
    exact ⟨settled_settle item, settled_settleItems items⟩
termination_by items => sizeOf items

theorem settledMembers_settleMembers : ∀ (members : List (String × Json))
    {done : List (String × Json)}, SettledMembers done → SettledMembers (settleMembers done members)
  | [], _, h => h
  | (name, value) :: members, _, h => by
    rw [settleMembers]
    exact settledMembers_settleMembers members (h.put name (settled_settle value))
termination_by members => sizeOf members

end

theorem settled_array_iff {items : List Json} :
    (Json.array items).Settled ↔ ∀ v ∈ items, v.Settled := by
  constructor
  · intro h
    rw [Settled, settle, settleItems_eq, Json.array.injEq] at h
    have hid : items.map settle = items.map id := by rw [h, List.map_id]
    exact List.map_inj_left.1 hid
  · exact settled_array

theorem settled_object_iff {ms : List (String × Json)} :
    (Json.object ms).Settled ↔ SettledMembers ms := by
  constructor
  · intro h
    rw [Settled, settle, Json.object.injEq] at h
    have hnil : SettledMembers [] := ⟨.nil, List.forall_mem_nil _⟩
    exact h ▸ settledMembers_settleMembers ms hnil
  · exact SettledMembers.settled

/-- What stands in an entry of a settled value is settled. -/
theorem settled_entry {v : Json} {es : List (String × Json)} {e : String × Json} (hv : v.Settled)
    (h : v.entries? = some es) (he : e ∈ es) : e.2.Settled := by
  unfold entries? at h
  split at h
  · cases h
    exact (settled_object_iff.1 hv).values e he
  · cases h
    obtain ⟨⟨item, i⟩, hi, rfl⟩ := List.mem_map.1 he
    exact settled_array_iff.1 hv item (List.fst_mem_of_mem_zipIdx hi)
  · cases h

end TypedFlags.Json
