import TypedFlags.Flag.Stored
import TypedFlags.Proofs.Json.Depth
import TypedFlags.Proofs.Json.Numbers
import TypedFlags.Proofs.Json.Record
/-!
# What is stored of a flag and what is restored

A flag is stored as a record, and decoding looks for the fields of that record and for nothing else
(`Flag.ofJson?_eq_some_iff`): the kind has to be that of the flag, and each other field has to hold
what the flag has there. Only the default of a tag flag may be left out.

Both halves of `Flag.stored_faithful` follow from this. **A flag is restored from its own stored text**,
because the fields are there; and **from every text that has the same fields**, in whatever order and
among whatever others, because these are the only ones that are looked for.
-/

set_option autoImplicit false

namespace TypedFlags.Flag

/-! ## What a field of a flag holds -/

/-- What is read as an integer of 64 bits is the number that stores it. -/
theorem reads_integer : Json.Reads integer? integerToJson := by
  intro v n
  constructor
  · intro h
    unfold integer? at h
    split at h
    · next m fits =>
      split at h
      · next hm =>
        cases h
        simp [integerToJson, Int64.toInt_ofInt_of_le fits.1 hm]
      · cases h
    · cases h
  · rintro rfl
    have hn := n.toInt_lt
    simp only [integerToJson, integer?]
    rw [if_pos (by omega), Int64.ofInt_toInt]

theorem reads_values : Json.Reads Json.strings? stringsToJson := Json.reads_strings

@[simp] theorem integer?_integerToJson (n : Int64) : integer? (integerToJson n) = some n :=
  reads_integer.2 rfl

@[simp] theorem strings?_stringsToJson (values : List String) :
    (stringsToJson values).strings? = some values := reads_values.2 rfl

/-! ## The fields -/

/-- The fields of a flag's record behind its kind. Only the default of a tag flag may be left out. -/
def layout : Flag → List Json.Field
  | tag _ _ => [.required "values", .optional "default" (.array [])]
  | flag => flag.fields.map fun (name, _) => .required name

/-- A flag and a record without its kind: each field holds what the flag has there. -/
def Fills (flag : Flag) (record : Json) : Prop :=
  record.fields? flag.layout = some (flag.fields.map (·.2))

section
variable {numbered : Bool} {v : Json} {flag : Flag}

theorem fills_of_ofJson? (h : ofJson? numbered v = some flag) :
    ∃ record, v.kinded? kinds numbered = some (flag.kind, record) ∧ flag.Fills record := by
  obtain ⟨⟨kind, record⟩, hk, h⟩ := Option.bind_eq_some_iff.1 h
  refine ⟨record, ?_⟩
  dsimp only at h
  -- One case for each name of a kind; `hr` is what the record has in the fields of that kind.
  split at h
  · obtain ⟨value, hr, rfl⟩ := Json.reads_bool.single h
    exact ⟨hk, hr⟩
  · obtain ⟨value, hr, rfl⟩ := reads_integer.single h
    exact ⟨hk, hr⟩
  · obtain ⟨value, hr, rfl⟩ := Json.reads_string.single h
    exact ⟨hk, hr⟩
  · obtain ⟨schema, value, hr, rfl⟩ := Json.reads_string.pair Json.reads_string h
    exact ⟨hk, hr⟩
  · obtain ⟨values, value, hr, rfl⟩ := reads_values.pair Json.reads_string h
    exact ⟨hk, hr⟩
  · obtain ⟨values, value, hr, rfl⟩ := reads_values.pair reads_values h
    exact ⟨hk, hr⟩
  · obtain ⟨variants, value, hr, rfl⟩ := reads_values.pair Json.reads_string h
    exact ⟨hk, hr⟩
  · cases h

theorem ofJson?_of_fills {record : Json} (hk : v.kinded? kinds numbered = some (flag.kind, record))
    (hr : flag.Fills record) : ofJson? numbered v = some flag := by
  cases flag <;> simp only [Fills, layout, fields, List.map, kind] at hr hk <;>
    simp [ofJson?, hk, Json.required?, hr, Json.bool?, Json.string?]

/-- **A record stores a flag if it says the flag's kind and has in each field what the flag has.** -/
theorem ofJson?_eq_some_iff : ofJson? numbered v = some flag ↔
    ∃ k, k.kind? kinds numbered = some flag.kind ∧
      v.fields? (.required "kind" :: flag.layout) = some (k :: flag.fields.map (·.2)) := by
  rw [← Json.kinded?_iff]
  constructor
  · exact fills_of_ofJson?
  · rintro ⟨record, hk, hr⟩
    exact ofJson?_of_fills hk hr

end

/-! ## Storing -/

theorem kind_mem_kinds (flag : Flag) : flag.kind ∈ kinds := by
  cases flag <;> simp [kind, kinds]

theorem fields?_toJson (flag : Flag) :
    flag.toJson.fields? (.required "kind" :: flag.layout) =
      some (.string flag.kind :: flag.fields.map (·.2)) := by
  cases flag <;> rfl

/-- **Storing loses nothing**: the record of a flag stores the flag. -/
theorem ofJson?_toJson (flag : Flag) (numbered : Bool) : ofJson? numbered flag.toJson = some flag :=
  ofJson?_eq_some_iff.2 ⟨.string flag.kind, if_pos flag.kind_mem_kinds, flag.fields?_toJson⟩

theorem printable_strings (values : List String) : (stringsToJson values).Printable := by
  simp [stringsToJson]

theorem printable_toJson (flag : Flag) : flag.toJson.Printable := by
  have hinteger (n : Int64) : (integerToJson n).Printable :=
    .number (Json.numberText_integer _ _)
  cases flag <;> simp [toJson, fields, hinteger, printable_strings]

theorem depth_strings_le (values : List String) : (stringsToJson values).depth ≤ 1 := by
  have hitems : Json.depthItems (values.map .string) ≤ 0 := by
    rw [Json.depthItems_le_iff, List.forall_mem_map]
    exact fun _ _ => Nat.le_refl _
  exact Nat.succ_le_succ hitems

theorem depth_toJson_le (flag : Flag) : flag.toJson.depth ≤ 2 := by
  have hfields : ∀ m ∈ flag.fields, m.2.depth ≤ 1 := by
    cases flag <;> simp [fields, integerToJson, Json.depth, depth_strings_le]
  refine Nat.succ_le_succ (Json.depthMembers_le_iff.2 (List.forall_mem_cons.2 ⟨?_, hfields⟩))
  exact Nat.zero_le _

/-! ## Restoring -/

theorem restore?_of_read {text : String} {v : Json} (h : Json.read text = .ok v) :
    restore? text = ofJson? false v := by
  rw [restore?, h]
  rfl

/-- A stored flag is restored as it was. -/
theorem restore?_of_stored (flag : Flag) : restore? flag.stored = some flag := by
  have hdepth : flag.toJson.depth ≤ Json.maxDepth :=
    Nat.le_trans flag.depth_toJson_le (by decide)
  have hread : Json.read flag.stored = .ok flag.toJson := flag.printable_toJson.read_text hdepth
  rw [restore?_of_read hread]
  exact flag.ofJson?_toJson false

/-! ## Texts with the same fields -/

/-- The names under which something is stored of a flag. -/
def names (flag : Flag) : List String := "kind" :: flag.fields.map (·.1)

theorem names_layout (flag : Flag) :
    (.required "kind" :: flag.layout).map (·.name) = flag.names := by
  cases flag <;> rfl

/-- An object has the members of another one in any order, and besides these only members under whose
    names nothing is stored of a flag. -/
def Extends (flag : Flag) (ms ms' : List (String × Json)) : Prop :=
  ∃ added, ms'.Perm (ms ++ added) ∧ ∀ m ∈ added, m.1 ∉ flag.names

section
variable {flag : Flag} {ms ms' : List (String × Json)}

theorem Extends.fields? (h : flag.Extends ms ms') :
    (Json.object ms').fields? (.required "kind" :: flag.layout) =
      (Json.object ms).fields? (.required "kind" :: flag.layout) := by
  obtain ⟨added, hperm, hadded⟩ := h
  refine Json.fields?_object_congr fun field hfield => ?_
  have hname : field.name ∈ flag.names := by
    rw [← flag.names_layout]
    exact List.mem_map_of_mem hfield
  have hother : ∀ m ∈ added, m.1 ≠ field.name := fun m hm he => hadded m hm (he ▸ hname)
  rw [Json.Field.value?_perm hperm, Json.Field.value?_append hother]

/-- What is added or moved is not seen. -/
theorem Extends.ofJson?_iff (h : flag.Extends ms ms') {numbered : Bool} :
    ofJson? numbered (.object ms') = some flag ↔ ofJson? numbered (.object ms) = some flag := by
  rw [ofJson?_eq_some_iff, ofJson?_eq_some_iff, h.fields?]

/-- **A flag survives storage.** It is restored from its stored text; and where it is restored from a
    text, it is restored from every text that has the members of the first, in whatever order, with
    others among them that are none of its fields. (A record that is an array has no names, so there is
    nothing to add to it.) -/
theorem stored_faithful (flag : Flag) :
    restore? flag.stored = some flag ∧
      ∀ {text text' : String} {ms ms' : List (String × Json)},
        Json.read text = .ok (.object ms) → Json.read text' = .ok (.object ms') →
          flag.Extends ms ms' → restore? text = some flag → restore? text' = some flag := by
  refine ⟨flag.restore?_of_stored, fun hread hread' hext h => ?_⟩
  rw [restore?_of_read hread] at h
  rw [restore?_of_read hread']
  exact hext.ofJson?_iff.2 h

end

/-- A tag flag without a default, with its kind behind the values; then the kind goes to the front, and a
    name that means something for other flags is added twice. -/
theorem stored_faithful_tag :
    let flag := tag ["a\"", "b | c"] []
    let kind : String × Json := ("kind", .string "tag")
    let values : String × Json := ("values", .array [.string "a\"", .string "b | c"])
    let doc : Json := .object [values, kind]
    let doc' : Json := .object [kind, ("schema", .array [.object []]), values, ("schema", .null)]
    restore? flag.stored = some flag ∧ restore? doc.text = some flag ∧
      restore? doc'.text = some flag := by
  intro flag kind values doc doc'
  have hprint : doc.Printable := by simp [doc, kind, values]
  have hprint' : doc'.Printable := by simp [doc', kind, values, Json.Printable.null]
  have hflag : restore? doc.text = some flag := by decide +kernel
  have hextends : flag.Extends [values, kind]
      [kind, ("schema", .array [.object []]), values, ("schema", .null)] := by
    refine ⟨[("schema", .array [.object []]), ("schema", .null)], ?_, ?_⟩
    · exact (List.Perm.cons _ (List.Perm.swap _ _ _)).trans (List.Perm.swap _ _ _)
    · simp [names, fields, flag]
  obtain ⟨hstored, hchanged⟩ := stored_faithful flag
  exact ⟨hstored, hflag,
    hchanged (hprint.read_text (by decide)) (hprint'.read_text (by decide)) hextends hflag⟩

end TypedFlags.Flag
