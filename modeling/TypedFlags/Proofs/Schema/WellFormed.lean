import TypedFlags.Proofs.Schema.Printing
/-!
# What comes out of schema text

The converse of printing: whatever text a type set was read from, it is one that could have been
printed (`TypeSet.Writable`), and looking up the name of a type or property in it leads back to that
type or property (`TypeSet.Addressable`). The parts come from different stages of the reading.

* The cutting of the text makes the names names: every token of a text is legible, and the leaves of
  a tree are among its tokens.
* The count of open braces bounds the nesting, because the tokens of a type close all that they open.
* The grammar puts each `[]` where it belongs, and its checks keep names apart.
-/

set_option autoImplicit false

namespace TypedFlags.Schema

/-! ## Every token of a text is legible -/

namespace Token

theorem legible_ofWord {word : String}
    (h : ∃ c cs, word.toList = c :: cs ∧ isWordStart c = true ∧ ∀ d ∈ cs, isWordPart d = true) :
    (ofWord word).Legible := by
  unfold ofWord
  split
  · trivial
  next htype =>
  split
  · trivial
  next hinterface =>
  split
  · next kind hk =>
    have hm : kind ∈ Primitive.writable := List.mem_of_find?_eq_some hk
    rintro rfl
    exact absurd hm (by decide)
  · next hk =>
    refine ⟨h, ?_⟩
    have hkind : ∀ kind ∈ Primitive.writable, kind.keyword ≠ word := by
      simpa [Primitive.ofKeyword?] using hk
    have hne : ∀ kind ∈ Primitive.writable, word ≠ kind.keyword :=
      fun kind hm => (hkind kind hm).symm
    simp only [Primitive.writable, List.forall_mem_cons] at hne
    obtain ⟨hb, hi, hf, hn, hs, -⟩ := hne
    simp only [keywords, List.mem_cons, List.not_mem_nil, or_false, not_or]
    exact ⟨htype, hinterface, hb, hi, hf, hn, hs⟩

theorem legible_ofPunctuation? {c : Char} {t : Token} (h : ofPunctuation? c = some t) :
    t.Legible := by
  unfold ofPunctuation? at h
  split at h <;> cases h <;> trivial

theorem legible_of_cut? {text rest : List Char} {t : Token} (h : cut? text = some (t, rest)) :
    t.Legible := by
  unfold cut? at h
  split at h
  · cases h
    trivial
  · next c tail _ =>
    split at h
    · next hc =>
      cases h
      refine legible_ofWord ⟨c, tail.takeWhile isWordPart, String.toList_ofList, hc, ?_⟩
      exact List.all_eq_true.1 List.all_takeWhile
    · obtain ⟨u, hu, he⟩ := Option.map_eq_some_iff.1 h
      cases he
      exact legible_ofPunctuation? hu
  · cases h

end Token

theorem legible_of_lexemes {text : List Char} {k : Nat} {ls : List Lexeme}
    (h : lexemes text k = .ok ls) : ∀ l ∈ ls, l.token.Legible := by
  fun_induction lexemes text k generalizing ls with
  | case1 =>
    cases h
    simp
  | case2 _ c rest _ ih => exact ih h
  | case3 => cases h
  | case4 k c rest _ token tail hcut ih =>
    obtain ⟨ms, hm, rfl⟩ := map_eq_ok_iff.1 h
    rw [List.forall_mem_cons]
    exact ⟨Token.legible_of_cut? hcut, ih hm⟩

/-! ## The leaves of a tree are among its tokens -/

theorem Property.mem_listTokens {p : Property} {ps : List Property} {t : Token} (hp : p ∈ ps)
    (ht : t ∈ p.tokens) : t ∈ listTokens ps := by
  induction ps with
  | nil => cases hp
  | cons q ps ih =>
    cases ps with
    | nil =>
      obtain rfl := List.mem_singleton.1 hp
      exact ht
    | cons r ps =>
      rw [listTokens_cons_cons]
      rcases List.mem_cons.1 hp with rfl | hp
      · simp [ht]
      · simp [ih hp]

theorem ObjectType.mem_tokens {o : ObjectType} {p : Property} {t : Token} (hp : p ∈ o.properties)
    (ht : t ∈ p.tokens) : t ∈ o.tokens := by
  rw [o.tokens_eq]
  simp [Property.mem_listTokens hp ht]

theorem Property.legible_of_tokens {p : Property} (h : ∀ t ∈ p.tokens, t.Legible) :
    IsName p.name ∧ ∀ t ∈ p.type.tokens, t.Legible := by
  rw [p.tokens_eq] at h
  simp only [List.forall_mem_append, List.forall_mem_singleton] at h
  exact ⟨h.1.1.1.1, h.1.2⟩

theorem PropertyType.legible_of_tokens (type : PropertyType) (h : ∀ t ∈ type.tokens, t.Legible) :
    type.Legible ∧ type.Throughout ObjectType.Legible := by
  induction type using PropertyType.induction_on_objects with
  | primitive kind => exact ⟨h _ (List.mem_singleton_self _), by simp⟩
  | reference name => exact ⟨h _ (List.mem_singleton_self _), by simp⟩
  | object o ih =>
    refine ⟨trivial, ?_⟩
    rw [PropertyType.throughout_object, ObjectType.throughout_iff]
    have hp : ∀ p ∈ o.properties, p.Legible ∧ p.type.Throughout ObjectType.Legible := by
      intro p hp
      obtain ⟨hn, ht⟩ := Property.legible_of_tokens fun t ht => h t (ObjectType.mem_tokens hp ht)
      obtain ⟨hl, hall⟩ := ih p hp ht
      exact ⟨⟨hn, hl⟩, hall⟩
    exact ⟨fun p hm => (hp p hm).1, fun p hm => (hp p hm).2⟩

theorem TypeDecl.Yields.legible {decl : TypeDecl} {ts : List Token} (h : decl.Yields ts)
    (hl : ∀ t ∈ ts, t.Legible) :
    (decl.name = "" ∨ IsName decl.name) ∧ decl.body.Throughout ObjectType.Legible := by
  cases h with
  | intro hh hb =>
    obtain ⟨hhead, hbody⟩ := List.forall_mem_append.1 hl
    refine ⟨?_, ?_⟩
    · generalize decl.name = name at hh
      cases hh with
      | unnamed => exact .inl rfl
      | type name => exact .inr (hhead (.identifier name) (by simp))
      | interface name => exact .inr (hhead (.identifier name) (by simp))
    · rw [ObjectType.yields_iff.1 hb] at hbody
      exact PropertyType.throughout_object.1
        ((PropertyType.object decl.body).legible_of_tokens hbody).2

theorem TypeDecl.YieldList.legible {decls : List TypeDecl} {ts : List Token}
    (h : TypeDecl.YieldList decls ts) (hl : ∀ t ∈ ts, t.Legible) :
    ∀ decl ∈ decls, (decl.name = "" ∨ IsName decl.name) ∧
      decl.body.Throughout ObjectType.Legible := by
  induction h with
  | nil => simp
  | cons h _ ih =>
    obtain ⟨hts, hus⟩ := List.forall_mem_append.1 hl
    rw [List.forall_mem_cons]
    exact ⟨h.legible hts, ih hus⟩

/-! ## Nesting -/

theorem TypeDecl.YieldList.nesting_le {decls : List TypeDecl} {ts : List Token}
    (h : TypeDecl.YieldList decls ts) (hs : Shallow 0 ts) :
    ∀ decl ∈ decls, decl.body.nesting ≤ maxNesting := by
  induction h with
  | nil => simp
  | cons h _ ih =>
    obtain ⟨hn, hrest⟩ := h.shallow_append.1 hs
    rw [List.forall_mem_cons]
    exact ⟨hn, ih hrest⟩

/-! ## Look-ups -/

/-- A look-up by a name that no other element has finds the element. -/
theorem find?_of_nodup {α : Type} {name : α → String} {xs : List α} (h : (xs.map name).Nodup)
    {x : α} (hx : x ∈ xs) : xs.find? (name · = name x) = some x := by
  induction xs with
  | nil => cases hx
  | cons y ys ih =>
    rw [List.map_cons, List.nodup_cons] at h
    rcases List.mem_cons.1 hx with rfl | hm
    · simp
    · have hne : name y ≠ name x := fun he => h.1 (he ▸ List.mem_map_of_mem hm)
      rw [List.find?_cons_of_neg (by simpa using hne), ih h.2 hm]

/-- Every look-up by the name of something finds it, and there is a main type to be found. -/
structure TypeSet.Addressable (T : TypeSet) : Prop where
  resolve : ∀ decl ∈ T.types, decl.name ≠ "" → T.resolve? decl.name = some decl
  main : 2 ≤ T.types.length → ∃ decl, T.types.filter (·.isMain) = [decl] ∧ T.main? = some decl
  property : ∀ o, T.HasObject o → ∀ p ∈ o.properties, o.property? p.name = some p

theorem TypeSet.WellNamed.nodup {T : TypeSet} (h : T.WellNamed) :
    (T.types.map (·.name)).Nodup := by
  by_cases hlen : 2 ≤ T.types.length
  · exact (h hlen).2
  · obtain hnil | ⟨decl, hone⟩ : T.types = [] ∨ ∃ decl, T.types = [decl] := by
      rw [← List.length_eq_zero_iff, ← List.length_eq_one_iff]
      omega
    · simp [hnil]
    · simp [hone]

theorem TypeSet.addressable {T : TypeSet} (hd : ∀ o, T.HasObject o → o.Distinct)
    (hn : T.WellNamed) : T.Addressable where
  resolve decl hm hne := by
    rw [TypeSet.resolve?, if_neg hne]
    exact find?_of_nodup hn.nodup hm
  main hlen := by
    obtain ⟨decl, hmain⟩ := List.length_eq_one_iff.1 (hn hlen).1
    refine ⟨decl, hmain, ?_⟩
    rw [TypeSet.main?, ← List.head?_filter, hmain]
    rfl
  property o ho p hp := find?_of_nodup (hd o ho) hp

/-! ## The whole reading -/

/-- **What is read from a text could have been printed, and names lead where they should.** -/
theorem TypeSet.writable_of_ofText {text : String} {T : TypeSet}
    (h : TypeSet.ofText text = .ok T) : T.Writable ∧ T.Addressable := by
  obtain ⟨ls, hls, hshallow, htokens⟩ := TypeSet.ofText_eq_ok_iff.1 h
  obtain ⟨hscans, hdistinct, hnamed⟩ := TypeSet.ofTokens_iff_scans.1 htokens
  obtain ⟨⟨hne, hyields⟩, hof⟩ := TypeSet.yields_iff_scans.2 hscans
  have hlegible : ∀ t ∈ ls.map (·.token), t.Legible := by
    intro t ht
    obtain ⟨l, hl, rfl⟩ := List.mem_map.1 ht
    exact legible_of_lexemes hls l hl
  have hdecls := hyields.legible hlegible
  refine ⟨?_, TypeSet.addressable hdistinct hnamed⟩
  exact {
    nonempty := hne
    typeNames := fun decl hd => (hdecls decl hd).1
    properties := TypeSet.forall_hasProperty_iff.2
      (TypeSet.forall_hasObject_iff.2 fun decl hd => (hdecls decl hd).2)
    objectFirst := hof
    distinct := hdistinct
    wellNamed := hnamed
    nesting := hyields.nesting_le hshallow
  }

/-- Names that start like keywords, a suffix behind an object and one behind a suffix, and a type
    that refers to itself. -/
theorem TypeSet.writable_of_ofText_list :
    let text := "\x7b typed: \x7b string1?: List \x7d[][] \x7d type List = \x7b tail?: List[] \x7d"
    ∃ T, TypeSet.ofText text = .ok T ∧ T.Writable ∧ T.Addressable := by
  intro text
  have hok : (TypeSet.ofText text).toBool = true := by decide +kernel
  cases hT : TypeSet.ofText text with
  | error e => rw [hT] at hok; cases hok
  | ok T => exact ⟨T, rfl, TypeSet.writable_of_ofText hT⟩

end TypedFlags.Schema
