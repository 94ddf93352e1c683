import Mathlib.Data.List.Sort
import Mathlib.Data.String.Basic
import TypedFlags.Proofs.Flag.Exports
/-!
# The order of export

Flags are exported in the order of their keys, and flags with one key in the order given. That
determines the order: **there is one list that is in the order of the keys and has, under each key,
the flags that were given in the order in which they were given** (`inKeyOrder_iff`).

So a bundle depends on the order of a group only where flags share a key (`ofFlags_eq_of_filter`), and
not at all where the keys differ (`ofFlags_perm`). That the first declaration of a type stays is no
exception: which one is first is decided by the keys.
-/

set_option autoImplicit false

namespace TypedFlags.Bundle

/-- The given flags are put in the order of their keys, by code points. Those with one key stay in the
    order given. -/
structure InKeyOrder (flags sorted : List KeyedFlag) : Prop where
  perm : sorted.Perm flags
  increasing : sorted.Pairwise (·.key ≤ ·.key)
  stable : ∀ key, sorted.filter (·.key = key) = flags.filter (·.key = key)

theorem inKeyOrder_inOrder (flags : List KeyedFlag) : InKeyOrder flags (inOrder flags) := by
  have htrans : ∀ f g k : KeyedFlag, decide (f.key ≤ g.key) = true → decide (g.key ≤ k.key) = true →
      decide (f.key ≤ k.key) = true := by
    intro f g k hfg hgk
    exact decide_eq_true (le_trans (of_decide_eq_true hfg) (of_decide_eq_true hgk))
  have htotal : ∀ f g : KeyedFlag, (decide (f.key ≤ g.key) || decide (g.key ≤ f.key)) = true := by
    intro f g
    simpa using le_total f.key g.key
  refine ⟨inOrder_perm flags, ?_, fun key => ?_⟩
  · exact (List.pairwise_mergeSort htrans htotal flags).imp of_decide_eq_true
  · -- The flags with one key are in order as they are given, so sorting keeps them as they are.
    have hsame : (flags.filter (·.key = key)).Pairwise fun f g => decide (f.key ≤ g.key) = true := by
      refine List.pairwise_of_forall_mem_list fun f hf g hg => decide_eq_true ?_
      rw [of_decide_eq_true (List.mem_filter.1 hf).2, of_decide_eq_true (List.mem_filter.1 hg).2]
    have hsub := (List.sublist_mergeSort htrans htotal hsame List.filter_sublist).filter (·.key = key)
    rw [List.filter_filter] at hsub
    simp only [Bool.and_self] at hsub
    exact (hsub.eq_of_length ((inOrder_perm flags).filter _).length_eq.symm).symm

section
variable {α β : Type} [LinearOrder β] {key : α → β} {xs ys : List α}

theorem mem_iff_of_filter_key (h : ∀ k, xs.filter (key · = k) = ys.filter (key · = k)) (a : α) :
    a ∈ xs ↔ a ∈ ys := by
  have ha : a ∈ xs.filter (key · = key a) ↔ a ∈ ys.filter (key · = key a) := by rw [h]
  simpa [List.mem_filter] using ha

/-- Two lists in the order of their keys are one list if each key has the same elements in both, in
    the same order. -/
theorem eq_of_filter_key (hx : xs.Pairwise (key · ≤ key ·)) (hy : ys.Pairwise (key · ≤ key ·))
    (h : ∀ k, xs.filter (key · = k) = ys.filter (key · = k)) : xs = ys := by
  have hmem := mem_iff_of_filter_key h
  induction xs generalizing ys with
  | nil => exact (List.eq_nil_iff_forall_not_mem.2 fun a ha => by simpa using (hmem a).2 ha).symm
  | cons x xs ih =>
    cases ys with
    | nil => simpa using hmem x
    | cons y ys =>
      obtain ⟨hxle, hxs⟩ := List.pairwise_cons.1 hx
      obtain ⟨hyle, hys⟩ := List.pairwise_cons.1 hy
      -- Each of the two heads stands in the other list, so neither has the greater key.
      have hkey : key x = key y := by
        apply le_antisymm
        · rcases List.mem_cons.1 ((hmem y).2 List.mem_cons_self) with rfl | hm
          · exact le_rfl
          · exact hxle y hm
        · rcases List.mem_cons.1 ((hmem x).1 List.mem_cons_self) with rfl | hm
          · exact le_rfl
          · exact hyle x hm
      have hhead := h (key x)
      rw [List.filter_cons_of_pos (by simp), List.filter_cons_of_pos (by simp [hkey])] at hhead
      obtain rfl := (List.cons.inj hhead).1
      have htail : ∀ k, xs.filter (key · = k) = ys.filter (key · = k) := by
        intro k
        have hk := h k
        by_cases hxk : key x = k
        · simpa [List.filter_cons, hxk] using hk
        · simpa [List.filter_cons, hxk] using hk
      rw [ih hxs hys htail (mem_iff_of_filter_key htail)]

end

/-- The order of export is the one order of the keys. -/
theorem inKeyOrder_iff {flags sorted : List KeyedFlag} :
    InKeyOrder flags sorted ↔ sorted = inOrder flags := by
  constructor
  · intro h
    have hall := inKeyOrder_inOrder flags
    refine eq_of_filter_key h.increasing hall.increasing fun key => ?_
    rw [h.stable, hall.stable]
  · intro h
    rw [h]
    exact inKeyOrder_inOrder flags

variable {flags flags' : List KeyedFlag}

/-- It does not matter how flags with different keys stand to each other. -/
theorem ofFlags_eq_of_filter
    (h : ∀ key, flags.filter (·.key = key) = flags'.filter (·.key = key)) :
    ofFlags flags = ofFlags flags' := by
  have hall := inKeyOrder_inOrder flags
  have hall' := inKeyOrder_inOrder flags'
  have horder : inOrder flags = inOrder flags' := by
    refine eq_of_filter_key hall.increasing hall'.increasing fun key => ?_
    rw [hall.stable, hall'.stable, h]
  rw [ofFlags, ofFlags, horder]

/-- **A bundle does not depend on the order of the flags**, whether they are in order or not, as long
    as their keys differ. -/
theorem ofFlags_perm (hkeys : (flags.map (·.key)).Nodup) (hp : flags.Perm flags') :
    ofFlags flags = ofFlags flags' := by
  have hne : flags.Pairwise fun f g => f.key ≠ g.key := List.pairwise_map.1 hkeys
  have hne' : flags'.Pairwise fun f g => f.key ≠ g.key :=
    List.pairwise_map.1 ((hp.map _).nodup_iff.1 hkeys)
  refine ofFlags_eq_of_filter fun key => ?_
  -- Under one key there is at most one flag, so there is nothing to be put in another order.
  refine (hp.filter _).eq_of_pairwise (fun f g hf hg hfg _ => absurd ?_ hfg) (hne.filter _)
    (hne'.filter _)
  rw [of_decide_eq_true (List.mem_filter.1 hf).2, of_decide_eq_true (List.mem_filter.1 hg).2]

/-- Two schemas that declare one type differently, one of a flag out of order, and a schema that cannot
    be read. -/
theorem ofFlags_perm_three :
    let first : KeyedFlag := ⟨"a-b", .object "\x7b p: P \x7d type P = \x7b\x7d" "\x7b p: \x7b\x7d \x7d"⟩
    let second : KeyedFlag := ⟨"a.b", .object "\x7b q?: P \x7d type P = \x7b x: float \x7d" "[1]"⟩
    let broken : KeyedFlag := ⟨"A", .object "\x7b x: \x7d" "\x7b\x7d"⟩
    [second, broken, first].Perm [first, second, broken] ∧
      ofFlags [second, broken, first] = ofFlags [first, second, broken] := by
  intro first second broken
  have hp : [second, broken, first].Perm [first, second, broken] := by decide
  exact ⟨hp, ofFlags_perm (by decide) hp⟩

end TypedFlags.Bundle
