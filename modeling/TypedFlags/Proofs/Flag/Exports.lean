import Mathlib.Data.List.Nodup
import TypedFlags.Flag.Bundle
/-!
# The names of exports

A bundle exports types under two sorts of name: those that schemas give to their named types, and
those made from keys. The loop over the flags remembers names of the first sort only, and making a
name from a key loses what separates the words of the key.

**What is remembered is enough for the named types**: each name is exported once, whatever the flags
(`names_types_perm`). For the rest the names have to be apart already, and `exports_nodup_iff` says
exactly when they are. Keys that differ are not enough for it (`exports_collide`).
-/

set_option autoImplicit false

namespace TypedFlags.Bundle

/-! ## First declarations -/

section
variable {seen seen' : List String} {ds es : List (String × String)} {name : String}

/-- It does not matter in which order names have been seen, or how often. -/
theorem firsts_congr (h : ∀ name, name ∈ seen ↔ name ∈ seen') : firsts seen ds = firsts seen' ds := by
  induction ds generalizing seen seen' with
  | nil => rfl
  | cons d ds ih =>
    have hcons : ∀ name, name ∈ d.1 :: seen ↔ name ∈ d.1 :: seen' := by
      intro name
      rw [List.mem_cons, List.mem_cons, h]
    simp only [firsts, h, ih h, ih hcons]

theorem firsts_append :
    firsts seen (ds ++ es) = firsts seen ds ++ firsts ((firsts seen ds).map (·.1) ++ seen) es := by
  induction ds generalizing seen with
  | nil => rfl
  | cons d ds ih =>
    rw [List.cons_append, firsts, firsts]
    split
    · exact ih
    · rw [ih, List.cons_append, List.map_cons]
      congr 2
      apply firsts_congr
      simp only [List.mem_append, List.mem_cons]
      grind

theorem mem_names_firsts :
    name ∈ (firsts seen ds).map (·.1) ↔ name ∉ seen ∧ name ∈ ds.map (·.1) := by
  induction ds generalizing seen with
  | nil => simp [firsts]
  | cons d ds ih =>
    rw [firsts]
    split
    · rw [ih, List.map_cons, List.mem_cons]
      grind
    · rw [List.map_cons, List.mem_cons, ih, List.map_cons, List.mem_cons]
      grind

theorem nodup_names_firsts : ((firsts seen ds).map (·.1)).Nodup := by
  induction ds generalizing seen with
  | nil => exact .nil
  | cons d ds ih =>
    rw [firsts]
    split
    · exact ih
    · rw [List.map_cons, List.nodup_cons]
      exact ⟨fun hm => (mem_names_firsts.1 hm).1 (by simp), ih⟩

end

/-! ## The loop over the flags -/

/-- The names of exported types are the names of the schemas' types, each once, and those made from
    keys. -/
theorem names_types_perm (seen : List String) (fs : List KeyedFlag) :
    ((types seen fs).map (·.1)).Perm
      ((firsts seen (fs.flatMap (namedTypes ·.flag))).map (·.1) ++ fs.map (pascalCase ·.key)) := by
  induction fs generalizing seen with
  | nil => exact .refl _
  | cons f fs ih =>
    rw [types, List.map_append, List.map_cons, List.flatMap_cons, firsts_append, List.map_append,
      List.map_cons, List.append_assoc]
    refine .append_left _ ?_
    exact ((ih _).cons _).trans List.perm_middle.symm

theorem nodup_types_iff (fs : List KeyedFlag) :
    ((types [] fs).map (·.1)).Nodup ↔
      (fs.map (pascalCase ·.key)).Nodup ∧
        ∀ f ∈ fs, ∀ g ∈ fs, pascalCase f.key ∉ (namedTypes g.flag).map (·.1) := by
  rw [(names_types_perm [] fs).nodup_iff, List.nodup_append']
  simp only [nodup_names_firsts, true_and]
  refine and_congr_right fun _ => ?_
  simp only [List.disjoint_right, mem_names_firsts, List.map_flatMap, List.mem_flatMap,
    List.forall_mem_map]
  simp

theorem nodup_validators_iff (fs : List KeyedFlag) :
    ((fs.filterMap validator?).map (·.1)).Nodup ↔
      ((fs.filter fun f => (validator? f).isSome).map (camelCase ·.key)).Nodup := by
  have hnames : (fs.filterMap validator?).map (·.1) =
      ((fs.filter fun f => (validator? f).isSome).map (camelCase ·.key)).map (· ++ "Schema") := by
    induction fs with
    | nil => rfl
    | cons f fs ih =>
      cases hv : validator? f with
      | none => simpa [hv] using ih
      | some v =>
        have hname : v.1 = camelCase f.key ++ "Schema" := by
          unfold validator? at hv
          split at hv <;> cases hv
          rfl
        simpa [hv, hname] using ih
  have hinj : Function.Injective fun name : String => name ++ "Schema" := by
    intro a b h
    exact (String.append_left_inj _).1 h
  rw [hnames, List.nodup_map_iff hinj]

/-! ## Whole bundles -/

/-- The entries for types in the declarations of a group of flags. -/
def typeEntries (flags : List KeyedFlag) : List (String × String) := types [] (inOrder flags)

/-- The entries in the validators of a group of flags. -/
def validatorEntries (flags : List KeyedFlag) : List (String × String) :=
  (inOrder flags).filterMap validator?

theorem inOrder_perm (flags : List KeyedFlag) : (inOrder flags).Perm flags :=
  List.mergeSort_perm _ _

theorem nodup_typeEntries_iff (flags : List KeyedFlag) :
    ((typeEntries flags).map (·.1)).Nodup ↔ (flags.map (pascalCase ·.key)).Nodup ∧
      ∀ f ∈ flags, ∀ g ∈ flags, pascalCase f.key ∉ (namedTypes g.flag).map (·.1) := by
  have hperm := inOrder_perm flags
  rw [typeEntries, nodup_types_iff, (hperm.map _).nodup_iff]
  simp only [hperm.mem_iff]

theorem nodup_validatorEntries_iff (flags : List KeyedFlag) :
    ((validatorEntries flags).map (·.1)).Nodup ↔
      ((flags.filter fun f => (validator? f).isSome).map (camelCase ·.key)).Nodup := by
  have hperm := (inOrder_perm flags).filter fun f => (validator? f).isSome
  rw [validatorEntries, nodup_validators_iff, (hperm.map _).nodup_iff]

/-- **When no name is exported twice.** The texts are made of the entries, one behind the other. The
    names of the types differ if those made from keys do and none of them is the name of a type in a
    schema; the names of the validators differ if those made from the keys of flags that have one
    do. -/
theorem exports_nodup_iff (flags : List KeyedFlag) :
    ((ofFlags flags).declarations = String.join ((typeEntries flags).map typeLine) ∧
      (((typeEntries flags).map (·.1)).Nodup ↔ (flags.map (pascalCase ·.key)).Nodup ∧
        ∀ f ∈ flags, ∀ g ∈ flags, pascalCase f.key ∉ (namedTypes g.flag).map (·.1))) ∧
    ((ofFlags flags).validators = "import \x7b z \x7d from \"zod\";\n\n" ++
        String.join ((validatorEntries flags).map validatorLine) ∧
      (((validatorEntries flags).map (·.1)).Nodup ↔
        ((flags.filter fun f => (validator? f).isSome).map (camelCase ·.key)).Nodup)) :=
  ⟨⟨rfl, nodup_typeEntries_iff flags⟩, rfl, nodup_validatorEntries_iff flags⟩

/-- Three flags in order, with three different keys, of which the first makes the name of a type in
    the second's schema and the other two make one name. -/
theorem exports_collide :
    let flags : List KeyedFlag := [⟨"address", .boolean true⟩,
      ⟨"ship-to", .object "\x7b a: Address \x7d type Address = \x7b\x7d" "\x7b a: \x7b\x7d \x7d"⟩,
      ⟨"ship.to", .object "\x7b\x7d" "\x7b\x7d"⟩]
    (∀ f ∈ flags, f.flag.check = .ok ()) ∧ (flags.map (·.key)).Nodup ∧
      ¬ ((typeEntries flags).map (·.1)).Nodup ∧ ¬ ((validatorEntries flags).map (·.1)).Nodup := by
  intro flags
  have hok : ∀ f ∈ flags, f.flag.check.toBool = true := by decide +kernel
  refine ⟨fun f hf => ?_, by decide, ?_, ?_⟩
  · have := hok f hf
    cases hc : f.flag.check with
    | error e => rw [hc] at this; cases this
    | ok => rfl
  · rw [nodup_typeEntries_iff]
    exact fun h => absurd h.1 (by decide +kernel)
  · rw [nodup_validatorEntries_iff]
    decide +kernel

end TypedFlags.Bundle
