import TypedFlags.Proofs.Schema.Lexing
/-!
# Terms and their texts

Type declarations and validator expressions are built alike, from leaves, arrays, and records whose
fields may be optional. A `Term` is what the two have in common; what its leaves say is left open.
They differ in how a term is spelled out, and that is a `Style`.

**A text in a lawful style spells one term**, and it shows where the term ends, whatever stands behind
it (`Style.Lawful.text_append_inj`). The laws are about the pieces of a style, and each of them is
about one place where two terms could run into each other: which of the three sorts of term starts
here, whether a record goes on, and which of the two marks of an optional field is missing.
-/

set_option autoImplicit false

namespace TypedFlags.Render

open Schema (isWordStart isWordPart)

/-! ## Terms -/

mutual

/-- What a rendered type says of a value. -/
inductive Term (α : Type) where
  | leaf (a : α)
  | array (item : Term α)
  | record (fields : List (TermField α))

/-- A field of a record. -/
structure TermField (α : Type) where
  name : String
  isOptional : Bool
  type : Term α

end

/-- A text is a word: it starts like one and goes on like one. -/
def IsWordText (text : List Char) : Prop :=
  ∃ c cs, text = c :: cs ∧ isWordStart c = true ∧ ∀ d ∈ cs, isWordPart d = true

/-- No word goes on at the front of a text. -/
def NoWord (text : List Char) : Prop := ∀ c ∈ text.head?, isWordPart c = false

variable {α : Type}

/-- The names of a term are words, and its leaves are among those that are meant to be read. -/
inductive Term.Legible (Says : α → Prop) : Term α → Prop
  | leaf {a : α} (h : Says a) : Legible Says (.leaf a)
  | array {item : Term α} (h : Legible Says item) : Legible Says (.array item)
  | record {fields : List (TermField α)} (hn : ∀ f ∈ fields, IsWordText f.name.toList)
      (h : ∀ f ∈ fields, Legible Says f.type) : Legible Says (.record fields)

/-! ## Styles -/

/-- How terms are spelled. -/
structure Style (α : Type) where
  leaf : α → List Char
  openArray : List Char
  closeArray : List Char
  openRecord : List Char
  closeRecord : List Char
  /-- What stands between two fields. -/
  separator : List Char
  /-- What stands between the name and the type of a field, optional or not. -/
  mark : Bool → List Char
  /-- What stands behind the type of a field, optional or not. -/
  tail : Bool → List Char

namespace Style

mutual

/-- The text of a term. -/
def text (st : Style α) : Term α → List Char
  | .leaf a => st.leaf a
  | .array item => st.openArray ++ (st.text item ++ st.closeArray)
  | .record [] => st.openRecord ++ st.closeRecord
  | .record (f :: fs) => st.openRecord ++ ' ' :: (st.field f ++ st.behind fs)
termination_by structural t => t

/-- The text of a field. -/
def field (st : Style α) : TermField α → List Char
  | ⟨name, isOptional, type⟩ =>
    name.toList ++ (st.mark isOptional ++ (st.text type ++ st.tail isOptional))
termination_by structural f => f

/-- The text of a record behind one of its fields, before the given others. -/
def behind (st : Style α) : List (TermField α) → List Char
  | [] => ' ' :: st.closeRecord
  | f :: fs => st.separator ++ (st.field f ++ st.behind fs)
termination_by structural fs => fs

end

/-- What can stand behind a field: a blank or a separator. -/
def Stop (st : Style α) (text : List Char) : Prop :=
  ∃ rest, text = ' ' :: rest ∨ text = st.separator ++ rest

/-- What is asked of a style whose texts can be read. `Says` are the leaves that are meant to be
    read, and `Ends` is what may stand behind a term. -/
structure Lawful (st : Style α) (Says : α → Prop) (Ends : List Char → Prop) : Prop where
  leaf_inj : ∀ {a b : α} {r s : List Char}, Says a → Says b → Ends r → Ends s →
    st.leaf a ++ r = st.leaf b ++ s → a = b ∧ r = s
  leaf_ne_array : ∀ {a : α} {r s : List Char}, Says a → Ends r →
    st.leaf a ++ r ≠ st.openArray ++ s
  leaf_ne_record : ∀ {a : α} {r s : List Char}, Says a → Ends r →
    st.leaf a ++ r ≠ st.openRecord ++ s
  array_ne_record : ∀ r s : List Char, st.openArray ++ r ≠ st.openRecord ++ s
  close_ne_blank : ∀ r s : List Char, st.closeRecord ++ r ≠ ' ' :: s
  separator_ne_blank : ∀ r s : List Char, st.separator ++ r ≠ ' ' :: s
  mark_noWord : ∀ (o : Bool) (r : List Char), NoWord (st.mark o ++ r)
  mark_inj : ∀ {o p : Bool} {r s : List Char}, st.mark o ++ r = st.mark p ++ s →
    st.mark o = st.mark p ∧ r = s
  tail_inj : ∀ {o p : Bool} {r s : List Char}, st.Stop r → st.Stop s →
    st.tail o ++ r = st.tail p ++ s → st.tail o = st.tail p ∧ r = s
  optional_inj : ∀ {o p : Bool}, st.mark o = st.mark p → st.tail o = st.tail p → o = p
  ends_array : ∀ r : List Char, Ends (st.closeArray ++ r)
  ends_tail : ∀ (o : Bool) {r : List Char}, st.Stop r → Ends (st.tail o ++ r)

end Style

/-! ## Words -/

/-- A word ends where no word goes on. -/
theorem word_append_inj {v w r s : List Char} (hv : IsWordText v) (hw : IsWordText w)
    (hr : NoWord r) (hs : NoWord s) (h : v ++ r = w ++ s) : v = w ∧ r = s := by
  obtain ⟨c, cs, rfl, -, hcs⟩ := hv
  obtain ⟨d, ds, rfl, -, hds⟩ := hw
  rw [List.cons_append, List.cons_append, List.cons.injEq] at h
  obtain ⟨rfl, htail⟩ := h
  obtain ⟨hv, hr⟩ := Schema.Token.takeWhile_word hcs hr
  obtain ⟨hw, hs⟩ := Schema.Token.takeWhile_word hds hs
  rw [htail] at hv hr
  exact ⟨congrArg (c :: ·) (hv.symm.trans hw), hr.symm.trans hs⟩

/-! ## Reading terms off a text -/

namespace Style
variable {st : Style α} {Says : α → Prop} {Ends : List Char → Prop}

theorem stop_behind (st : Style α) (fs : List (TermField α)) (r : List Char) :
    st.Stop (st.behind fs ++ r) := by
  cases fs with
  | nil => exact ⟨st.closeRecord ++ r, .inl rfl⟩
  | cons f fs => exact ⟨st.field f ++ st.behind fs ++ r, .inr (by simp [behind])⟩

namespace Lawful

mutual

/-- **What is spelled is the term and nothing else**: where two texts with something behind them agree,
    so do the terms, and so does what stands behind. -/
theorem text_append_inj (h : st.Lawful Says Ends) : ∀ {t u : Term α} {r s : List Char},
    t.Legible Says → u.Legible Says → Ends r → Ends s →
    st.text t ++ r = st.text u ++ s → t = u ∧ r = s
  | .leaf a, .leaf b, r, s, .leaf ha, .leaf hb, hr, hs, heq => by
    obtain ⟨rfl, hrest⟩ := h.leaf_inj ha hb hr hs heq
    exact ⟨rfl, hrest⟩
  | .leaf _, .array _, _, _, .leaf ha, _, hr, _, heq => by
    rw [text, text, List.append_assoc] at heq
    exact absurd heq (h.leaf_ne_array ha hr)
  | .array _, .leaf _, _, _, _, .leaf hb, _, hs, heq => by
    rw [text, text, List.append_assoc] at heq
    exact absurd heq.symm (h.leaf_ne_array hb hs)
  | .leaf _, .record fs, _, _, .leaf ha, _, hr, _, heq => by
    cases fs <;> rw [text, text, List.append_assoc] at heq <;>
      exact absurd heq (h.leaf_ne_record ha hr)
  | .record fs, .leaf _, _, _, _, .leaf hb, _, hs, heq => by
    cases fs <;> rw [text, text, List.append_assoc] at heq <;>
      exact absurd heq.symm (h.leaf_ne_record hb hs)
  | .array _, .record fs, _, _, _, _, _, _, heq => by
    cases fs <;> simp only [text, List.append_assoc] at heq <;>
      exact absurd heq (h.array_ne_record _ _)
  | .record fs, .array _, _, _, _, _, _, _, heq => by
    cases fs <;> simp only [text, List.append_assoc] at heq <;>
      exact absurd heq.symm (h.array_ne_record _ _)
  | .array t, .array u, r, s, .array ht, .array hu, _, _, heq => by
    simp only [text, List.append_assoc] at heq
    obtain ⟨rfl, hrest⟩ := text_append_inj h ht hu (h.ends_array r) (h.ends_array s)
      (List.append_cancel_left heq)
    exact ⟨rfl, List.append_cancel_left hrest⟩
  | .record [], .record [], r, s, _, _, _, _, heq => ⟨rfl, List.append_cancel_left heq⟩
  | .record [], .record (g :: gs), _, _, _, _, _, _, heq => by
    simp only [text, List.append_assoc] at heq
    exact absurd (List.append_cancel_left heq) (h.close_ne_blank _ _)
  | .record (f :: fs), .record [], _, _, _, _, _, _, heq => by
    simp only [text, List.append_assoc] at heq
    exact absurd (List.append_cancel_left heq).symm (h.close_ne_blank _ _)
  | .record (f :: fs), .record (g :: gs), r, s, .record hfn hf, .record hgn hg, _, _, heq => by
    simp only [text, List.append_assoc, List.cons_append] at heq
    rw [List.forall_mem_cons] at hfn hf hgn hg
    obtain ⟨rfl, hothers⟩ := field_append_inj h hfn.1 hgn.1 hf.1 hg.1 (st.stop_behind fs r)
      (st.stop_behind gs s) (List.cons.inj (List.append_cancel_left heq)).2
    obtain ⟨rfl, hrest⟩ := behind_append_inj h hfn.2 hgn.2 hf.2 hg.2 hothers
    exact ⟨rfl, hrest⟩
termination_by t => sizeOf t

theorem field_append_inj (h : st.Lawful Says Ends) : ∀ {f g : TermField α} {r s : List Char},
    IsWordText f.name.toList → IsWordText g.name.toList → f.type.Legible Says →
    g.type.Legible Says → st.Stop r → st.Stop s →
    st.field f ++ r = st.field g ++ s → f = g ∧ r = s
  | ⟨m, o, t⟩, ⟨n, p, u⟩, r, s, hm, hn, ht, hu, hr, hs, heq => by
    simp only [field, List.append_assoc] at heq
    obtain ⟨hname, hmarks⟩ :=
      word_append_inj hm hn (h.mark_noWord o _) (h.mark_noWord p _) heq
    obtain ⟨hmark, htypes⟩ := h.mark_inj hmarks
    obtain ⟨rfl, htails⟩ := text_append_inj h ht hu (h.ends_tail o hr) (h.ends_tail p hs) htypes
    obtain ⟨htail, hrest⟩ := h.tail_inj hr hs htails
    obtain rfl := String.toList_inj.1 hname
    obtain rfl := h.optional_inj hmark htail
    exact ⟨rfl, hrest⟩
termination_by f => sizeOf f

theorem behind_append_inj (h : st.Lawful Says Ends) : ∀ {fs gs : List (TermField α)} {r s : List Char},
    (∀ f ∈ fs, IsWordText f.name.toList) → (∀ g ∈ gs, IsWordText g.name.toList) →
    (∀ f ∈ fs, f.type.Legible Says) → (∀ g ∈ gs, g.type.Legible Says) →
    st.behind fs ++ r = st.behind gs ++ s → fs = gs ∧ r = s
  | [], [], _, _, _, _, _, _, heq => ⟨rfl, List.append_cancel_left heq⟩
  | [], g :: gs, _, _, _, _, _, _, heq => by
    simp only [behind, List.append_assoc, List.cons_append] at heq
    exact absurd heq.symm (h.separator_ne_blank _ _)
  | f :: fs, [], _, _, _, _, _, _, heq => by
    simp only [behind, List.append_assoc, List.cons_append] at heq
    exact absurd heq (h.separator_ne_blank _ _)
  | f :: fs, g :: gs, r, s, hfn, hgn, hf, hg, heq => by
    simp only [behind, List.append_assoc] at heq
    rw [List.forall_mem_cons] at hfn hf hgn hg
    obtain ⟨rfl, hothers⟩ := field_append_inj h hfn.1 hgn.1 hf.1 hg.1 (st.stop_behind fs r)
      (st.stop_behind gs s) (List.append_cancel_left heq)
    obtain ⟨rfl, hrest⟩ := behind_append_inj h hfn.2 hgn.2 hf.2 hg.2 hothers
    exact ⟨rfl, hrest⟩
termination_by fs => sizeOf fs

end

/-- A whole text spells one term. -/
theorem text_inj (h : st.Lawful Says Ends) (hnil : Ends []) {t u : Term α} (ht : t.Legible Says)
    (hu : u.Legible Says) (heq : st.text t = st.text u) : t = u := by
  have heq : st.text t ++ [] = st.text u ++ [] := by rw [heq]
  exact (h.text_append_inj ht hu hnil hnil heq).1

end Lawful

end Style

end TypedFlags.Render
