import TypedFlags.Proofs.Flag.Defaults
/-!
# Values as literals

A value can be given as it is or as a literal, and its compact text is a literal that gives it back
(`Literal.read_text`). So both ways lead to the same result of a check. The default of an object flag
is rendered as such a text, if it can be read at all, and otherwise as it stands: **rendering what has
been rendered changes nothing**, and the flag is in order, or out of it, as it was
(`Flag.check_rendered`).

Of the floats in a value it is assumed that their texts are read back.
-/

set_option autoImplicit false

namespace TypedFlags

open Schema (TypeSet)

/-- The compact text of a value is a literal of the value. -/
theorem Literal.read_text {v : Json} (hs : v.Settled) (hd : v.depth ≤ Json.maxDepth)
    (hf : ∀ x, v.HasFloat x → Json.ReadsBack x) : Literal.read v.text = .ok v := by
  have htext := Json.isText_compact (Json.printable_of_readsBack v hf)
  rw [Json.text, Literal.read_of_isText htext hd, hs]

/-- What a literal is read as is not too deep. -/
theorem Literal.depth_le_of_read {text : String} {v : Json} (h : Literal.read text = .ok v) :
    v.depth ≤ Json.maxDepth := Json.depth_le_of_readValue h

/-- A literal is held against a schema as the value that it is read as. -/
theorem Schema.TypeSet.checkLiteral_of_read {types : TypeSet} {text : String} {v : Json}
    (h : Literal.read text = .ok v) : types.checkLiteral text = types.check v := by
  cases hmain : types.main? with
  | none => rw [TypeSet.checkLiteral, hmain, TypeSet.check, hmain]
  | some main => simp only [TypeSet.checkLiteral, hmain, h]

namespace Flag

/-- The default of an object flag that can be read is rendered as the text of its value. -/
theorem defaultLiteral_of_read {schema value : String} {v : Json} (h : Literal.read value = .ok v) :
    (object schema value).defaultLiteral = v.text := by
  rw [defaultLiteral, h]

/-- One that cannot be read is rendered as it stands. -/
theorem defaultLiteral_of_error {schema value : String} {e : Json.Error}
    (h : Literal.read value = .error e) : (object schema value).defaultLiteral = value := by
  rw [defaultLiteral, h]

/-- Two literals of one value make flags that are both in order or have the same fault. -/
theorem check_of_read {schema value value' : String} {v : Json} (h : Literal.read value = .ok v)
    (h' : Literal.read value' = .ok v) :
    (object schema value).check = (object schema value').check := by
  rw [check, check]
  cases TypeSet.ofText schema with
  | error e => rfl
  | ok types =>
    dsimp only
    rw [TypeSet.checkLiteral_of_read h, TypeSet.checkLiteral_of_read h']

/-- **A value and its text are checked alike, and a rendered default renders as itself.** Whatever the
    schema, the text of a value (which repeats no names) as a literal gives the result that the value
    gives; and an object flag, in order or not, whose default is replaced by its rendering keeps both
    the rendering and the result of its check. -/
theorem check_rendered :
    (∀ (types : TypeSet) (v : Json), v.Settled → v.depth ≤ Json.maxDepth →
      (∀ x, v.HasFloat x → Json.ReadsBack x) → types.checkLiteral v.text = types.check v) ∧
    ∀ schema value : String,
      (∀ v x, Literal.read value = .ok v → v.HasFloat x → Json.ReadsBack x) →
      let rendered := (object schema value).defaultLiteral
      (object schema rendered).defaultLiteral = rendered ∧
        (object schema rendered).check = (object schema value).check := by
  constructor
  · intro types v hs hd hf
    exact TypeSet.checkLiteral_of_read (Literal.read_text hs hd hf)
  · intro schema value hf
    dsimp only
    cases h : Literal.read value with
    | error e =>
      rw [defaultLiteral_of_error h]
      exact ⟨defaultLiteral_of_error h, rfl⟩
    | ok v =>
      have hback : Literal.read v.text = .ok v :=
        Literal.read_text (settled_of_read h) (Literal.depth_le_of_read h) fun x => hf v x h
      rw [defaultLiteral_of_read h]
      exact ⟨defaultLiteral_of_read hback, check_of_read hback h⟩

/-- A value with a float and a string that looks like a relaxed literal, and a flag out of order with a
    relaxed default. -/
theorem check_rendered_half :
    let types : TypeSet := ⟨[⟨"", ⟨[⟨"x", false, false, .primitive .float⟩], false⟩⟩]⟩
    let v : Json :=
      .object [("x", .number (.float .half)), ("it's", .string "\x7b a: 1, \x7d")]
    let schema := "\x7b x: integer \x7d"
    let value := "\x7b x: 0.5, \x7d"
    let rendered := (object schema value).defaultLiteral
    types.checkLiteral v.text = types.check v ∧
      (object schema rendered).defaultLiteral = rendered ∧
      (object schema rendered).check = (object schema value).check := by
  intro types v schema value rendered
  have hhalf : ∀ {x rest}, Json.HasFloat x (.object (("x", .number (.float .half)) :: rest)) →
      (∀ m ∈ rest, ¬Json.HasFloat x m.2) → Json.ReadsBack x := by
    intro x rest h hrest
    cases h with
    | member hm hx =>
      obtain rfl | hm := List.mem_cons.1 hm
      · cases hx
        exact Json.readsBack_half
      · exact absurd hx (hrest _ hm)
  have hv : ∀ x, v.HasFloat x → Json.ReadsBack x := by
    intro x hx
    refine hhalf hx (List.forall_mem_singleton.2 ?_)
    rintro ⟨⟩
  have hw : ∀ w x, Literal.read value = .ok w → w.HasFloat x → Json.ReadsBack x := by
    intro w x hread hx
    rw [Literal.read_half] at hread
    cases hread
    exact hhalf hx (List.forall_mem_nil _)
  exact ⟨check_rendered.1 types v rfl (by decide) hv, check_rendered.2 schema value hw⟩

end Flag

end TypedFlags
