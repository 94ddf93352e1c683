import TypedFlags.Proofs.Json.Skipping
/-!
# Reading by a smaller outline

What an outline leaves out of a document is left out member by member (`Json.part`). **A text that is
read by one outline is read by every outline that asks for less, and what comes of it is the part of
the document that is still asked for** (`readOutline_part`). With the outline that asks for
everything this says what reading by an outline means, for a text that can be read as a whole.
-/

set_option autoImplicit false

namespace TypedFlags.Json

/-! ## Parts of documents -/

/-- The members of some names, with a part of the value of each. -/
def keep (names : List String) (part : Json → Json) (members : List (String × Json)) :
    List (String × Json) :=
  (members.filter (·.1 ∈ names)).map fun m => (m.1, part m.2)

/-- The part of a document that an outline names. -/
def part : Outline → Json → Json
  | [], v => v
  | _ :: inner, .array items => .array (items.map (part inner))
  | names :: inner, .object members => .object (keep names (part inner) members)
  | _ :: _, v => v

/-- All that one outline asks for, another asks for too. -/
def Outline.Covers : Outline → Outline → Prop
  | [], _ => True
  | _ :: _, [] => False
  | names :: inner, names' :: inner' => names' ⊆ names ∧ Covers inner inner'

instance Outline.decidableCovers : (o o' : Outline) → Decidable (o.Covers o')
  | [], _ => .isTrue trivial
  | _ :: _, [] => .isFalse id
  | names :: inner, names' :: inner' =>
    have := decidableCovers inner inner'
    inferInstanceAs (Decidable (names' ⊆ names ∧ Covers inner inner'))

theorem Outline.Covers.wants {o inner : Outline} {names : List String}
    (h : o.Covers (names :: inner)) {name : String} (hn : name ∈ names) : o.wants name = true := by
  cases o with
  | nil => rfl
  | cons names' inner' => exact decide_eq_true (h.1 hn)

theorem Outline.Covers.tail {o inner : Outline} {names : List String}
    (h : o.Covers (names :: inner)) : Covers o.tail inner := by
  cases o with
  | nil => exact trivial
  | cons names' inner' => exact h.2

theorem keep_append (names : List String) (part : Json → Json) (ms ns : List (String × Json)) :
    keep names part (ms ++ ns) = keep names part ms ++ keep names part ns := by
  simp [keep]

/-! ## Readers -/

/-- Where one reader succeeds so does the other, with a part of the document. -/
def Reader.Narrows (item narrow : Reader Json) (part : Json → Json) : Prop :=
  ∀ {text rest : List Char} {v : Json}, item.run text = .ok (v, rest) →
    narrow.run text = .ok (part v, rest)

section
variable {item narrow : Reader Json} {part : Json → Json} {text rest : List Char}

theorem items_narrow (hi : item.Narrows narrow part) {vs : List Json}
    (h : items item text = .ok (vs, rest)) :
    items narrow text = .ok (vs.map part, rest) := by
  fun_induction items item text generalizing vs rest with
  | case1 | case2 | case4 | case5 | case7 => cases h
  | case3 text v after hv tail hd =>
    cases h
    exact items_last (hi hv) hd
  | case6 text v after hv tail hend hclose hd _ ih =>
    obtain ⟨⟨us, rest'⟩, ht, he⟩ := map_eq_ok_iff.1 h
    cases he
    obtain ⟨c, next, hnext⟩ := List.exists_cons_of_ne_nil hend
    refine items_more (hi hv) hd hnext ?_ (ih ht)
    rintro rfl
    exact hclose _ hnext

theorem arrayBody_narrow (hi : item.Narrows narrow part) {vs : List Json}
    (h : arrayBody item text = .ok (vs, rest)) :
    arrayBody narrow text = .ok (vs.map part, rest) := by
  unfold arrayBody at h ⊢
  split at h
  · cases h
  · cases h
    rfl
  · exact items_narrow hi h

variable {wanted : String → Bool} {names : List String}

/-- Of the members that are wanted some are still wanted. The others are passed over, like those that
    were not wanted before. -/
theorem member_narrow (hw : ∀ name ∈ names, wanted name = true) (hi : item.Narrows narrow part)
    (hs : item.Skips) {m : Option (String × Json)} (h : member wanted item text = .ok (m, rest)) :
    ∃ n, member (· ∈ names) narrow text = .ok (n, rest) ∧ n.toList = keep names part m.toList := by
  obtain ⟨⟨cs, after⟩, hn, hcolon⟩ := bind_eq_ok_iff.1 h
  dsimp only at hcolon
  simp only [member, hn, bind, Except.bind]
  split at hcolon
  · cases hcolon
  · next value _ =>
    split at hcolon
    · obtain ⟨⟨v, rest'⟩, hv, he⟩ := bind_eq_ok_iff.1 hcolon
      cases he
      by_cases hname : String.ofList cs ∈ names
      · refine ⟨some (String.ofList cs, part v), ?_, by simp [keep, hname]⟩
        simp only [hname, decide_true, if_true, hi hv]
      · have hskip : skipValue [] value = .ok rest' := by
          rw [hs hv, skipRest]
        refine ⟨none, ?_, by simp [keep, hname]⟩
        simp only [hname, decide_false, Bool.false_eq_true, if_false, hskip]
    · next hunwanted =>
      obtain ⟨rest', hskip, he⟩ := bind_eq_ok_iff.1 hcolon
      cases he
      have hname : String.ofList cs ∉ names := fun hmem => hunwanted (hw _ hmem)
      refine ⟨none, ?_, rfl⟩
      simp only [hname, decide_false, Bool.false_eq_true, if_false, hskip]
  · cases hcolon

theorem members_narrow (hw : ∀ name ∈ names, wanted name = true) (hi : item.Narrows narrow part)
    (hs : item.Skips) {ms : List (String × Json)}
    (h : members wanted item text = .ok (ms, rest)) :
    members (· ∈ names) narrow text = .ok (keep names part ms, rest) := by
  fun_induction members wanted item text generalizing ms rest with
  | case1 | case2 | case4 | case6 | case7 | case8 => cases h
  | case3 text m after hm tail hd =>
    cases h
    obtain ⟨n, hn, hkeep⟩ := member_narrow hw hi hs hm
    rw [members_last hn hd, hkeep]
  | case5 text m after hm next tail hquote hd _ ih =>
    obtain ⟨⟨ns, rest'⟩, ht, he⟩ := map_eq_ok_iff.1 h
    cases he
    obtain ⟨n, hn, hkeep⟩ := member_narrow hw hi hs hm
    rw [members_more hn hd hquote (ih ht), hkeep, keep_append]

theorem objectBody_narrow (hw : ∀ name ∈ names, wanted name = true) (hi : item.Narrows narrow part)
    (hs : item.Skips) {ms : List (String × Json)}
    (h : objectBody wanted item text = .ok (ms, rest)) :
    objectBody (· ∈ names) narrow text = .ok (keep names part ms, rest) := by
  unfold objectBody at h ⊢
  split at h
  · cases h
  · cases h
    rfl
  · exact members_narrow hw hi hs h
  · cases h

/-- A scalar is asked for as a whole or not at all. -/
theorem part_of_depth_zero {v : Json} (h : v.depth = 0) (o : Outline) : v.part o = v := by
  cases o with
  | nil => rfl
  | cons names inner => cases v <;> first | rfl | cases h

theorem valueText_narrow {inner : Outline} (hw : ∀ name ∈ names, wanted name = true)
    {nested nested' : Option (Reader Json)}
    (hn : ∀ item, nested = some item → item.Skips ∧
      ∃ narrow, nested' = some narrow ∧ item.Narrows narrow (Json.part inner))
    {v : Json} (h : valueText wanted nested text = .ok (v, rest)) :
    valueText (· ∈ names) nested' text = .ok (v.part (names :: inner), rest) := by
  cases hd : dropBlanks text with
  | nil =>
    unfold valueText at h
    rw [hd] at h
    cases h
  | cons c tail =>
    by_cases ha : c = '['
    · subst ha
      obtain ⟨item, hitem, vs, hvs, rfl⟩ := valueText_array_ok hd h
      obtain ⟨-, narrow, rfl, hnarrow⟩ := hn item hitem
      rw [valueText_array narrow hd, arrayBody_narrow hnarrow hvs]
      rfl
    by_cases ho : c = '\x7b'
    · subst ho
      obtain ⟨item, hitem, ms, hms, rfl⟩ := valueText_object_ok hd h
      obtain ⟨hskips, narrow, rfl, hnarrow⟩ := hn item hitem
      rw [valueText_object narrow hd, objectBody_narrow hw hnarrow hskips hms]
      rfl
    have hscalar := @valueText_scalar wanted _ _ _ hd ha ho
    rw [← hscalar _ nested nested', h,
      part_of_depth_zero (depth_of_valueText_none ((hscalar wanted none nested).trans h))]

end

theorem Reader.value_narrows (d : Nat) {o o' : Outline} (h : o.Covers o') :
    (Reader.value d o).Narrows (Reader.value d o') (part o') := by
  induction d generalizing o o' with
  | zero =>
    intro text rest v hv
    cases o' with
    | nil =>
      cases o with
      | nil => exact hv
      | cons => exact h.elim
    | cons names inner =>
      have hv : valueText o.wants none text = .ok (v, rest) := hv
      have hnarrow : valueText (· ∈ names) none text = .ok (v.part (names :: inner), rest) := by
        refine valueText_narrow (fun _ => h.wants) ?_ hv
        rintro _ ⟨⟩
      exact hnarrow
  | succ d ih =>
    intro text rest v hv
    cases o' with
    | nil =>
      cases o with
      | nil => exact hv
      | cons => exact h.elim
    | cons names inner =>
      have hv : valueText o.wants (some (Reader.value d o.tail)) text = .ok (v, rest) := hv
      have hnarrow : valueText (· ∈ names) (some (Reader.value d inner)) text =
          .ok (v.part (names :: inner), rest) := by
        refine valueText_narrow (fun _ => h.wants) ?_ hv
        rintro _ ⟨⟩
        exact ⟨Reader.value_skips d o.tail, _, rfl, ih h.tail⟩
      exact hnarrow

/-! ## Whole texts -/

/-- **A text that is read by one outline is read by every outline that asks for less**, as the part of
    the document that it asks for. -/
theorem readOutline_part {o o' : Outline} (h : o.Covers o') {text : String} {v : Json}
    (hv : readOutline o text = .ok v) : readOutline o' text = .ok (v.part o') := by
  rw [readOutline, mapError_eq_ok_iff, readWithin, bind_eq_ok_iff] at hv ⊢
  obtain ⟨⟨u, rest⟩, hrun, hend⟩ := hv
  refine ⟨_, Reader.value_narrows maxDepth h hrun, ?_⟩
  dsimp only at hend ⊢
  split at hend
  · cases hend
    rfl
  · cases hend

end TypedFlags.Json
