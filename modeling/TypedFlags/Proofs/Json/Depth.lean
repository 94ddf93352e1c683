import TypedFlags.Proofs.Json.Reading
import TypedFlags.Proofs.Json.Settling
/-!
# The limit on nesting

A reader for a depth succeeds only where the readers for greater depths do, with the same document,
and that document is within the depth (`Reader.value_within`). With what is known of documents that
are not too deep this settles which texts are refused for their depth alone: a text that writes a
document is read if and only if the document is within the limit (`IsText.readOutline_iff`). Settling
takes nothing deeper, so the value that a text stands for is within the limit too
(`depth_le_of_readValue`).
-/

set_option autoImplicit false

namespace TypedFlags.Json

/-! ## Depth -/

theorem depthItems_le_iff {items : List Json} {d : Nat} :
    depthItems items ≤ d ↔ ∀ v ∈ items, v.depth ≤ d := by
  induction items with
  | nil => simp [depthItems]
  | cons v items ih => rw [depthItems, Nat.max_le, ih, List.forall_mem_cons]

theorem depthMembers_le_iff {members : List (String × Json)} {d : Nat} :
    depthMembers members ≤ d ↔ ∀ m ∈ members, m.2.depth ≤ d := by
  induction members with
  | nil => simp [depthMembers]
  | cons m members ih =>
    obtain ⟨name, v⟩ := m
    rw [depthMembers, Nat.max_le, ih, List.forall_mem_cons]

theorem depth_item_lt {items : List Json} {v : Json} (h : v ∈ items) :
    v.depth < (Json.array items).depth := by
  rw [depth]
  exact Nat.lt_succ_of_le (depthItems_le_iff.1 (Nat.le_refl _) v h)

/-- What stands in an entry of a value is less deep than the value. -/
theorem depth_entry_lt {v : Json} {es : List (String × Json)} {e : String × Json}
    (h : v.entries? = some es) (he : e ∈ es) : e.2.depth < v.depth := by
  unfold entries? at h
  split at h
  · cases h
    rw [depth]
    exact Nat.lt_succ_of_le (depthMembers_le_iff.1 (Nat.le_refl _) e he)
  · cases h
    obtain ⟨⟨item, i⟩, hi, rfl⟩ := List.mem_map.1 he
    exact depth_item_lt (List.fst_mem_of_mem_zipIdx hi)
  · cases h

mutual

/-- Settling takes nothing deeper. -/
theorem depth_settle_le : ∀ v : Json, v.settle.depth ≤ v.depth
  | .array items => by
    rw [settle, depth, depth]
    exact Nat.succ_le_succ (depthItems_settleItems_le items)
  | .object members => by
    rw [settle, depth, depth]
    exact Nat.succ_le_succ
      (depthMembers_settleMembers_le members (Nat.zero_le _) (Nat.le_refl _))
  | .null | .bool _ | .number _ | .string _ => Nat.le_refl _
termination_by v => sizeOf v

theorem depthItems_settleItems_le :
    ∀ items : List Json, depthItems (settleItems items) ≤ depthItems items
  | [] => Nat.le_refl _
  | v :: items => by
    have hv := depth_settle_le v
    have hitems := depthItems_settleItems_le items
    rw [settleItems, depthItems, depthItems]
    omega
termination_by items => sizeOf items

theorem depthMembers_settleMembers_le : ∀ (members : List (String × Json))
    {done : List (String × Json)} {d : Nat}, depthMembers done ≤ d → depthMembers members ≤ d →
      depthMembers (settleMembers done members) ≤ d
  | [], _, _, hdone, _ => hdone
  | (name, v) :: members, done, d, hdone, h => by
    rw [depthMembers, Nat.max_le] at h
    rw [settleMembers]
    refine depthMembers_settleMembers_le members (depthMembers_le_iff.2 ?_) h.2
    intro m hm
    rcases mem_put hm with rfl | hm
    · exact Nat.le_trans (depth_settle_le v) h.1
    · exact depthMembers_le_iff.1 hdone m hm
termination_by members => sizeOf members

end

/-! ## Readers for different depths -/

/-- Where one reader succeeds, so does the other, with the same document, which is at most `d`
    deep. -/
def Reader.WithinDepth (d : Nat) (item wide : Reader Json) : Prop :=
  ∀ {text rest : List Char} {v : Json}, item.run text = .ok (v, rest) →
    wide.run text = .ok (v, rest) ∧ v.depth ≤ d

section
variable {d : Nat} {item wide : Reader Json} {wanted : String → Bool} {text rest : List Char}

theorem items_within (hw : item.WithinDepth d wide) {vs : List Json}
    (h : items item text = .ok (vs, rest)) :
    items wide text = .ok (vs, rest) ∧ depthItems vs ≤ d := by
  fun_induction items item text generalizing vs rest with
  | case1 | case2 | case4 | case5 | case7 => cases h
  | case3 _ v after hv close hd =>
    cases h
    obtain ⟨hwide, hdepth⟩ := hw hv
    exact ⟨items_last hwide hd, by simpa [depthItems] using hdepth⟩
  | case6 _ v after hv tail hend hclose hd _ ih =>
    obtain ⟨⟨us, _⟩, hu, he⟩ := map_eq_ok_iff.1 h
    cases he
    obtain ⟨hwide, hdepth⟩ := hw hv
    obtain ⟨hitems, hdepths⟩ := ih hu
    obtain ⟨c, next, hnext⟩ := List.exists_cons_of_ne_nil hend
    refine ⟨items_more hwide hd hnext ?_ hitems, Nat.max_le.2 ⟨hdepth, hdepths⟩⟩
    rintro rfl
    exact hclose _ hnext

theorem arrayBody_within (hw : item.WithinDepth d wide) {vs : List Json}
    (h : arrayBody item text = .ok (vs, rest)) :
    arrayBody wide text = .ok (vs, rest) ∧ depthItems vs ≤ d := by
  unfold arrayBody at h ⊢
  split at h
  · cases h
  · cases h
    exact ⟨rfl, Nat.zero_le _⟩
  · exact items_within hw h

/-- What is left out of a reading is passed over without counting its depth. -/
theorem member_within (hw : item.WithinDepth d wide) {m : Option (String × Json)}
    (h : member wanted item text = .ok (m, rest)) :
    member wanted wide text = .ok (m, rest) ∧ depthMembers m.toList ≤ d := by
  unfold member at h ⊢
  obtain ⟨⟨name, next⟩, hname, h⟩ := bind_eq_ok_iff.1 h
  simp only [hname, bind, Except.bind] at h ⊢
  split at h
  · cases h
  · split at h
    · next value _ hwanted =>
      obtain ⟨⟨v, after⟩, hv, he⟩ := bind_eq_ok_iff.1 h
      cases he
      obtain ⟨hwide, hdepth⟩ := hw hv
      simp [hwanted, hwide, depthMembers, hdepth]
    · next hunwanted =>
      obtain ⟨after, hskip, he⟩ := bind_eq_ok_iff.1 h
      cases he
      simp [hunwanted, hskip, depthMembers]
  · cases h

theorem depthMembers_append (ms ns : List (String × Json)) :
    depthMembers (ms ++ ns) = max (depthMembers ms) (depthMembers ns) := by
  induction ms with
  | nil => exact (Nat.zero_max _).symm
  | cons m ms ih =>
    rw [List.cons_append, depthMembers, depthMembers, ih, Nat.max_assoc]

theorem members_within (hw : item.WithinDepth d wide) {ms : List (String × Json)}
    (h : members wanted item text = .ok (ms, rest)) :
    members wanted wide text = .ok (ms, rest) ∧ depthMembers ms ≤ d := by
  fun_induction members wanted item text generalizing ms rest with
  | case1 | case2 | case4 | case6 | case7 | case8 => cases h
  | case3 _ m after hm close hd =>
    cases h
    obtain ⟨hwide, hdepth⟩ := member_within hw hm
    exact ⟨members_last hwide hd, hdepth⟩
  | case5 _ m after hm next tail hn hd _ ih =>
    obtain ⟨⟨ns, _⟩, hns, he⟩ := map_eq_ok_iff.1 h
    cases he
    obtain ⟨hwide, hdepth⟩ := member_within hw hm
    obtain ⟨hmembers, hdepths⟩ := ih hns
    refine ⟨members_more hwide hd hn hmembers, ?_⟩
    rw [depthMembers_append]
    exact Nat.max_le.2 ⟨hdepth, hdepths⟩

theorem objectBody_within (hw : item.WithinDepth d wide) {ms : List (String × Json)}
    (h : objectBody wanted item text = .ok (ms, rest)) :
    objectBody wanted wide text = .ok (ms, rest) ∧ depthMembers ms ≤ d := by
  unfold objectBody at h ⊢
  split at h
  · cases h
  · cases h
    exact ⟨rfl, Nat.zero_le _⟩
  · exact members_within hw h
  · cases h

end

/-! ## Values -/

section
variable {wanted : String → Bool} {nested : Option (Reader Json)}
  {text rest tail : List Char}

/-- Only for arrays and objects it matters what is wanted and how to read what stands inside. -/
theorem valueText_scalar {c : Char} (hd : dropBlanks text = c :: tail) (ha : c ≠ '[')
    (ho : c ≠ '{') (wanted' : String → Bool) (nested nested' : Option (Reader Json)) :
    valueText wanted nested text = valueText wanted' nested' text := by
  unfold valueText
  rw [hd]
  simp only [ha, ho, if_false]

theorem valueText_array (item : Reader Json) (hd : dropBlanks text = '[' :: tail) :
    valueText wanted (some item) text =
      (arrayBody item tail).map fun (vs, rest) => (.array vs, rest) := by
  unfold valueText
  rw [hd]
  rfl

theorem valueText_object (item : Reader Json) (hd : dropBlanks text = '{' :: tail) :
    valueText wanted (some item) text =
      (objectBody wanted item tail).map fun (ms, rest) => (.object ms, rest) := by
  unfold valueText
  rw [hd]
  rfl

theorem valueText_array_ok {v : Json} (hd : dropBlanks text = '[' :: tail)
    (h : valueText wanted nested text = .ok (v, rest)) :
    ∃ item, nested = some item ∧ ∃ vs, arrayBody item tail = .ok (vs, rest) ∧ Json.array vs = v := by
  cases nested with
  | none =>
    unfold valueText at h
    rw [hd] at h
    cases h
  | some item =>
    rw [valueText_array item hd] at h
    exact ⟨item, rfl, map_rest h⟩

theorem valueText_object_ok {v : Json} (hd : dropBlanks text = '{' :: tail)
    (h : valueText wanted nested text = .ok (v, rest)) :
    ∃ item, nested = some item ∧
      ∃ ms, objectBody wanted item tail = .ok (ms, rest) ∧ Json.object ms = v := by
  cases nested with
  | none =>
    unfold valueText at h
    rw [hd] at h
    cases h
  | some item =>
    rw [valueText_object item hd] at h
    exact ⟨item, rfl, map_rest h⟩

/-- Where nothing may stand inside, there is a scalar. -/
theorem depth_of_valueText_none {v : Json} (h : valueText wanted none text = .ok (v, rest)) :
    v.depth = 0 := by
  have hword {u : Json} {x : Except Stop (List Char)} (hu : u.depth = 0)
      (h : x.map (u, ·) = .ok (v, rest)) : v.depth = 0 := by
    obtain ⟨_, -, he⟩ := map_eq_ok_iff.1 h
    cases he
    exact hu
  unfold valueText at h
  split at h
  · cases h
  · split at h
    · exact hword rfl h
    · split at h
      · exact hword rfl h
      · split at h
        · exact hword rfl h
        · split at h
          · obtain ⟨_, -, rfl⟩ := map_rest h
            rfl
          · split at h
            · obtain ⟨_, -, rfl⟩ := map_rest h
              rfl
            · split at h
              · obtain ⟨_, -, rfl⟩ := map_rest (f := fun cs => Json.string (String.ofList cs)) h
                rfl
              · split at h
                · cases h
                · split at h <;> cases h

end

theorem valueText_within {d : Nat} {wanted : String → Bool} {narrow wide : Option (Reader Json)}
    (hw : ∀ item, narrow = some item →
      ∃ item', wide = some item' ∧ ∃ n < d, item.WithinDepth n item')
    {text rest : List Char} {v : Json} (h : valueText wanted narrow text = .ok (v, rest)) :
    valueText wanted wide text = .ok (v, rest) ∧ v.depth ≤ d := by
  cases hd : dropBlanks text with
  | nil =>
    unfold valueText at h
    rw [hd] at h
    cases h
  | cons c tail =>
    by_cases ha : c = '['
    · subst ha
      obtain ⟨item, rfl, vs, hvs, rfl⟩ := valueText_array_ok hd h
      obtain ⟨item', rfl, n, hn, hwithin⟩ := hw item rfl
      obtain ⟨hwide, hdepth⟩ := arrayBody_within hwithin hvs
      rw [valueText_array item' hd, hwide]
      exact ⟨rfl, Nat.lt_of_le_of_lt hdepth hn⟩
    by_cases ho : c = '{'
    · subst ho
      obtain ⟨item, rfl, ms, hms, rfl⟩ := valueText_object_ok hd h
      obtain ⟨item', rfl, n, hn, hwithin⟩ := hw item rfl
      obtain ⟨hwide, hdepth⟩ := objectBody_within hwithin hms
      rw [valueText_object item' hd, hwide]
      exact ⟨rfl, Nat.lt_of_le_of_lt hdepth hn⟩
    have hscalar := @valueText_scalar wanted _ _ _ hd ha ho wanted
    refine ⟨(hscalar wide narrow).trans h, ?_⟩
    rw [depth_of_valueText_none ((hscalar none narrow).trans h)]
    exact Nat.zero_le d

/-- **The reader for a depth agrees with the readers for greater depths**, and what it reads is
    within its depth. -/
theorem Reader.value_within {d e : Nat} (h : d ≤ e) (o : Outline) :
    (Reader.value d o).WithinDepth d (Reader.value e o) := by
  induction d generalizing e o with
  | zero =>
    obtain ⟨nested, hrun⟩ := Reader.value_eq e o
    intro text rest v hv
    have hv : valueText o.wants none text = .ok (v, rest) := hv
    rw [hrun]
    refine valueText_within ?_ hv
    rintro _ ⟨⟩
  | succ d ih =>
    obtain ⟨e, rfl⟩ : ∃ k, e = k + 1 := ⟨e - 1, by omega⟩
    intro text rest v hv
    have hv : valueText o.wants (some (Reader.value d o.tail)) text = .ok (v, rest) := hv
    show valueText o.wants (some (Reader.value e o.tail)) text = .ok (v, rest) ∧ v.depth ≤ d + 1
    refine valueText_within ?_ hv
    rintro _ ⟨⟩
    exact ⟨_, rfl, d, Nat.lt_succ_self d, ih (Nat.le_of_succ_le_succ h) o.tail⟩

/-! ## Whole texts -/

/-- **A text that writes a document is read if and only if the document is within the limit.** -/
theorem IsText.readOutline_iff {v u : Json} {text : String} {o : Outline}
    (h : IsText v text.toList) (hw : Within o v) :
    Json.readOutline o text = .ok u ↔ u = v ∧ v.depth ≤ maxDepth := by
  constructor
  · intro hu
    obtain ⟨rest, hv, hg⟩ := h
    rw [Json.readOutline, mapError_eq_ok_iff, readWithin] at hu
    obtain ⟨⟨u', rest'⟩, hrun, hend⟩ := bind_eq_ok_iff.1 hu
    -- A reader that is wide enough for the document reads the document.
    obtain ⟨hwide, hdepth⟩ := Reader.value_within (Nat.le_max_left maxDepth v.depth) o hrun
    rw [hv.run (Nat.le_max_right maxDepth v.depth) hw] at hwide
    cases hwide
    have hblanks : dropBlanks rest = [] := by rw [dropBlanks_of_gap hg]; rfl
    simp only [hblanks] at hend
    cases hend
    exact ⟨rfl, hdepth⟩
  · rintro ⟨rfl, hd⟩
    exact h.readOutline hd hw

theorem depth_le_of_readOutline {v : Json} {text : String} {o : Outline}
    (h : Json.readOutline o text = .ok v) : v.depth ≤ maxDepth := by
  rw [Json.readOutline, mapError_eq_ok_iff, readWithin] at h
  obtain ⟨⟨u, rest⟩, hrun, hend⟩ := bind_eq_ok_iff.1 h
  have hdepth : u.depth ≤ maxDepth := (Reader.value_within (Nat.le_refl maxDepth) o hrun).2
  dsimp only at hend
  split at hend
  · cases hend
    exact hdepth
  · cases hend

/-- The value that a text stands for is within the limit. -/
theorem depth_le_of_readValue {v : Json} {text : String} (h : Json.readValue text = .ok v) :
    v.depth ≤ maxDepth := by
  obtain ⟨doc, hread, rfl⟩ := map_eq_ok_iff.1 h
  exact Nat.le_trans (depth_settle_le doc) (depth_le_of_readOutline hread)

end TypedFlags.Json
