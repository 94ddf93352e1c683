import TypedFlags.Proofs.Flag.Order
import TypedFlags.Proofs.Flag.ValueSets
import TypedFlags.Proofs.Render.References
/-!
# Named types in a bundle

The declarations of a bundle come in blocks, one for each flag: the named types that are declared for
it, and behind them the type under its key. A set of names goes through the loop to tell which named
types have been declared before, and here it is said without that set which ones a flag brings
(`Bundle.DeclaredOnce`): **the first of each name, in the order of the keys**, each in the block of the
flag whose schema it is from.

A name may therefore have to be looked for in the block of another flag. If every schema declares the
names that it refers to, they are all there (`Bundle.namedTypes_declared_once`): a type of a schema is
left out only where another of its name has been declared.
-/

set_option autoImplicit false

namespace TypedFlags

open Schema (TypeSet TypeDecl ObjectType Primitive)
open Render (RefersTo Spells)

namespace Flag

/-! ## References in the types of flags -/

variable {vs : List String} {name : String}

/-- A union of string literals is not spelled of a term: it is empty or starts with a quote. -/
theorem not_spells_union {t : Render.Term String} : ¬ Spells (union vs) t := by
  intro h
  obtain ⟨c, cs, hcs, hc⟩ := h.head
  have hquote := head?_union vs c (by rw [hcs]; rfl)
  subst hquote
  exact absurd hc (by decide)

theorem not_refersTo_union : ¬ RefersTo (union vs) name := by
  intro h
  obtain ⟨-, t, ht, -⟩ := h
  exact not_spells_union ht

theorem not_refersTo_array : ¬ RefersTo ("Array<" ++ union vs ++ ">") name := by
  intro h
  obtain ⟨-, t, ht, -⟩ := h
  obtain ⟨item, -, hitem⟩ := ht.of_array
  exact not_spells_union hitem

/-- If the type of a flag refers to a name, so does the main type of its schema. -/
theorem exists_main_of_refersTo {f : Flag} (h : RefersTo f.typeLiteral name) :
    ∃ T decl, f.schema? = some (.ok T) ∧ decl ∈ T.types ∧ decl.body.RefersTo name := by
  have hprimitive (k : Primitive) : ¬ RefersTo k.declaration name :=
    Render.not_refersTo_word k.isWord_declaration
  cases f with
  | boolean => exact absurd h (hprimitive .boolean)
  | integer => exact absurd h (hprimitive .integer)
  | string => exact absurd h (hprimitive .string)
  | object schema value =>
    rw [typeLiteral] at h
    split at h
    · next T hT =>
      rw [TypeSet.declaration] at h
      split at h
      · next main hm =>
        have hmem : main ∈ T.types := List.mem_of_find?_eq_some hm
        exact ⟨T, main, congrArg some hT, hmem, TypeSet.refersTo_declaration hT hmem h⟩
      · exact absurd h (hprimitive .unrecognized)
    · exact absurd h (hprimitive .unrecognized)
  | enum => exact absurd h not_refersTo_union
  | tag => exact absurd h not_refersTo_array
  | abTest => exact absurd h not_refersTo_union

end Flag

namespace Bundle

/-! ## First declarations -/

section
variable {seen : List String} {ds : List (String × String)}

theorem firsts_eq_eraseDupsBy :
    firsts seen ds = (ds.filter (·.1 ∉ seen)).eraseDupsBy (·.1 == ·.1) := by
  induction ds generalizing seen with
  | nil => rfl
  | cons d ds ih =>
    rw [firsts]
    split
    · next hd => rw [ih, List.filter_cons_of_neg (by simpa using hd)]
    · next hd =>
      rw [ih, List.filter_cons_of_pos (by simpa using hd), List.eraseDupsBy_cons, List.filter_filter]
      congr 3
      funext e
      simp [List.mem_cons, not_or]

/-- Where no name comes twice, all that is left out is what has been seen. -/
theorem firsts_eq_filter (h : (ds.map (·.1)).Nodup) : firsts seen ds = ds.filter (·.1 ∉ seen) := by
  induction ds generalizing seen with
  | nil => rfl
  | cons d ds ih =>
    rw [List.map_cons, List.nodup_cons] at h
    rw [firsts]
    split
    · next hd => rw [ih h.2, List.filter_cons_of_neg (by simpa using hd)]
    · next hd =>
      rw [ih h.2, List.filter_cons_of_pos (by simpa using hd)]
      congr 1
      refine List.filter_congr fun e he => ?_
      have hne : e.1 ≠ d.1 := fun heq => h.1 (heq ▸ List.mem_map_of_mem he)
      simp [hne]

end

/-! ## Named types -/

/-- The names of the types in a flag's schema. -/
def typeNames (f : KeyedFlag) : List String := (namedTypes f.flag).map (·.1)

theorem mem_namedTypes {f : Flag} {d : String × String} : d ∈ namedTypes f ↔
    ∃ T, f.schema? = some (.ok T) ∧ ∃ decl ∈ T.named, (decl.name, decl.body.declaration) = d := by
  unfold namedTypes
  split
  · next T hT => simp [hT, TypeSet.namedDeclarations]
  · next hnone =>
    constructor
    · intro h
      cases h
    · intro h
      obtain ⟨T, hT, -⟩ := h
      exact absurd hT (hnone T)

theorem exists_text_of_schema? {f : Flag} {T : TypeSet} (h : f.schema? = some (.ok T)) :
    ∃ text, TypeSet.ofText text = .ok T := by
  cases f with
  | object schema value => exact ⟨schema, Option.some.inj h⟩
  | _ => cases h

/-- No schema names two types alike. -/
theorem nodup_typeNames (f : KeyedFlag) : (typeNames f).Nodup := by
  unfold typeNames namedTypes
  split
  · next T hT =>
    obtain ⟨text, htext⟩ := exists_text_of_schema? hT
    have hnodup := (TypeSet.writable_of_ofText htext).1.wellNamed.nodup
    rw [TypeSet.namedDeclarations, List.map_map]
    exact hnodup.sublist (List.filter_sublist.map _)
  · exact .nil

/-! ## Blocks -/

/-- What is declared for one flag. -/
structure Block where
  flag : KeyedFlag
  /-- The types of its schema that are declared here. -/
  named : List (String × String)

/-- The entries of a block: the type under the key stands behind the named types. -/
def Block.entries (b : Block) : List (String × String) :=
  b.named ++ [(pascalCase b.flag.key, b.flag.flag.typeLiteral)]

/-- The blocks of flags. `seen` are the names of the types that have been declared before. -/
def blocks (seen : List String) : List KeyedFlag → List Block
  | [] => []
  | f :: fs =>
    let fresh := firsts seen (namedTypes f.flag)
    ⟨f, fresh⟩ :: blocks (fresh.map (·.1) ++ seen) fs

theorem types_eq_flatMap_blocks (seen : List String) (fs : List KeyedFlag) :
    types seen fs = (blocks seen fs).flatMap Block.entries := by
  induction fs generalizing seen with
  | nil => rfl
  | cons f fs ih => simp [types, blocks, Block.entries, ih]

theorem map_flag_blocks (seen : List String) (fs : List KeyedFlag) :
    (blocks seen fs).map (·.flag) = fs := by
  induction fs generalizing seen with
  | nil => rfl
  | cons f fs ih => rw [blocks, List.map_cons, ih]

theorem flatMap_named_blocks (seen : List String) (fs : List KeyedFlag) :
    (blocks seen fs).flatMap (·.named) = firsts seen (fs.flatMap (namedTypes ·.flag)) := by
  induction fs generalizing seen with
  | nil => rfl
  | cons f fs ih => rw [blocks, List.flatMap_cons, ih, List.flatMap_cons, firsts_append]

/-- The names that have been seen are those of the schemas before. -/
theorem named_of_blocks {seen : List String} {fs : List KeyedFlag} {before after : List Block}
    {b : Block} (h : blocks seen fs = before ++ b :: after) :
    b.named = (namedTypes b.flag.flag).filter fun d =>
      d.1 ∉ seen ∧ ∀ c ∈ before, d.1 ∉ typeNames c.flag := by
  induction before generalizing seen fs with
  | nil =>
    cases fs with
    | nil => cases h
    | cons f fs =>
      obtain ⟨rfl, -⟩ := List.cons.inj h
      simpa using firsts_eq_filter (nodup_typeNames f)
  | cons c before ih =>
    cases fs with
    | nil => cases h
    | cons f fs =>
      obtain ⟨rfl, hrest⟩ := List.cons.inj h
      rw [ih hrest]
      refine List.filter_congr fun d _ => ?_
      have hseen : d.1 ∉ (firsts seen (namedTypes f.flag)).map (·.1) ++ seen ↔
          d.1 ∉ seen ∧ d.1 ∉ typeNames f := by
        rw [List.mem_append, mem_names_firsts, typeNames]
        tauto
      simp only [hseen, List.forall_mem_cons, and_assoc]

/-! ## Bundles -/

/-- Blocks are the declarations of flags, and the named types in them are declared once. -/
structure DeclaredOnce (flags : List KeyedFlag) (bs : List Block) : Prop where
  /-- There is a block for each flag, in the order of the keys. -/
  order : InKeyOrder flags (bs.map (·.flag))
  text : (ofFlags flags).declarations = String.join ((bs.flatMap Block.entries).map typeLine)
  /-- The named types are the first of each name in the schemas. -/
  firsts : bs.flatMap (·.named) = (bs.flatMap (namedTypes ·.flag.flag)).eraseDupsBy (·.1 == ·.1)
  /-- A block has the types of its flag's schema whose names are in no schema before. -/
  own : ∀ before b after, bs = before ++ b :: after →
    b.named = (namedTypes b.flag.flag).filter fun d => ∀ c ∈ before, d.1 ∉ typeNames c.flag
  once : ((bs.flatMap (·.named)).map (·.1)).Nodup
  complete : ∀ f ∈ flags, ∀ name ∈ typeNames f, ∃ d ∈ bs.flatMap (·.named), d.1 = name

theorem declaredOnce_blocks (flags : List KeyedFlag) :
    DeclaredOnce flags (blocks [] (inOrder flags)) := by
  have hflags := map_flag_blocks [] (inOrder flags)
  have hnamed := flatMap_named_blocks [] (inOrder flags)
  exact {
    order := by
      rw [hflags]
      exact inKeyOrder_inOrder flags
    text := by
      rw [← types_eq_flatMap_blocks]
      rfl
    firsts := by
      have hall : (blocks [] (inOrder flags)).flatMap (namedTypes ·.flag.flag) =
          (inOrder flags).flatMap (namedTypes ·.flag) := by
        conv_rhs => rw [← hflags, List.flatMap_map]
      rw [hnamed, hall, firsts_eq_eraseDupsBy]
      simp
    own := by
      intro before b after h
      rw [named_of_blocks h]
      simp
    once := hnamed ▸ nodup_names_firsts
    complete := by
      intro f hf name hname
      obtain ⟨d, hd, rfl⟩ := List.mem_map.1 hname
      have hall : d ∈ (inOrder flags).flatMap (namedTypes ·.flag) :=
        List.mem_flatMap.2 ⟨f, (inOrder_perm flags).mem_iff.2 hf, hd⟩
      rw [hnamed, ← List.mem_map, mem_names_firsts]
      exact ⟨List.not_mem_nil, List.mem_map_of_mem hall⟩
  }

variable {flags : List KeyedFlag} {bs : List Block}

theorem DeclaredOnce.mem_namedTypes (h : DeclaredOnce flags bs) {b : Block} (hb : b ∈ bs)
    {d : String × String} (hd : d ∈ b.named) : d ∈ namedTypes b.flag.flag := by
  obtain ⟨before, after, hbs⟩ := List.append_of_mem hb
  rw [h.own before b after hbs] at hd
  exact List.mem_of_mem_filter hd

/-- A name that an entry refers to comes from the schema of the flag in whose block the entry is. -/
theorem DeclaredOnce.exists_refersTo (h : DeclaredOnce flags bs) {b : Block} (hb : b ∈ bs)
    {e : String × String} (he : e ∈ b.entries) {name : String} (hname : RefersTo e.2 name) :
    ∃ T decl, b.flag.flag.schema? = some (.ok T) ∧ decl ∈ T.types ∧ decl.body.RefersTo name := by
  rcases List.mem_append.1 he with he | he
  · obtain ⟨T, hT, decl, hd, rfl⟩ := Bundle.mem_namedTypes.1 (h.mem_namedTypes hb he)
    obtain ⟨text, htext⟩ := exists_text_of_schema? hT
    have hmem : decl ∈ T.types := List.mem_of_mem_filter hd
    exact ⟨T, decl, hT, hmem, TypeSet.refersTo_declaration htext hmem hname⟩
  · obtain rfl := List.mem_singleton.1 he
    exact Flag.exists_main_of_refersTo hname

/-- If schemas declare the names that they refer to, so do the declarations. It may be another schema's
    type that is declared, but none is left out without one. -/
theorem DeclaredOnce.closed (h : DeclaredOnce flags bs)
    (hclosed : ∀ f ∈ flags, ∀ T, f.flag.schema? = some (.ok T) → T.Closed) :
    ∀ e ∈ bs.flatMap Block.entries, ∀ name, RefersTo e.2 name →
      ∃ d ∈ bs.flatMap (·.named), d.1 = name := by
  intro e he name hname
  obtain ⟨b, hb, heb⟩ := List.mem_flatMap.1 he
  obtain ⟨T, decl, hT, hd, o, ho, p, hp, ht⟩ := h.exists_refersTo hb heb hname
  have hf : b.flag ∈ flags := h.order.perm.mem_iff.1 (List.mem_map_of_mem hb)
  obtain ⟨decl', hd', rfl⟩ := hclosed _ hf T hT p ⟨o, ⟨decl, hd, ho⟩, hp⟩ name ht
  have hdeclared : (decl'.name, decl'.body.declaration) ∈ namedTypes b.flag.flag :=
    Bundle.mem_namedTypes.2 ⟨T, hT, decl', hd', rfl⟩
  exact h.complete b.flag hf decl'.name (List.mem_map_of_mem hdeclared)

/-- **Named types are declared once, and references stay closed.** The declarations come in blocks, in
    the order of the keys: a block has the types of its flag's schema whose names have not been
    declared, and then the type under the key. If every schema declares the names that it refers to,
    every name that stands in a declaration is declared by a named type. -/
theorem namedTypes_declared_once (flags : List KeyedFlag) : ∃ bs, DeclaredOnce flags bs ∧
    ((∀ f ∈ flags, ∀ T, f.flag.schema? = some (.ok T) → T.Closed) →
      ∀ e ∈ bs.flatMap Block.entries, ∀ name, RefersTo e.2 name →
        ∃ d ∈ bs.flatMap (·.named), d.1 = name) := by
  have hblocks := declaredOnce_blocks flags
  exact ⟨_, hblocks, hblocks.closed⟩

/-- A flag whose schema declares a type that is there already: its reference is left to the type that
    the other flag has under this name. -/
theorem namedTypes_declared_once_shared :
    let first : KeyedFlag := ⟨"a",
      .object "\x7b p: P \x7d type P = \x7b q?: Q \x7d type Q = \x7b\x7d" "\x7b p: \x7b\x7d \x7d"⟩
    let second : KeyedFlag := ⟨"b",
      .object "\x7b r: Q[] \x7d type Q = \x7b x: float \x7d" "\x7b r: [] \x7d"⟩
    ∃ bs, DeclaredOnce [second, first] bs ∧
      bs.flatMap (·.named) = [("P", "\x7b q?: Q \x7d"), ("Q", "\x7b\x7d")] ∧
      RefersTo second.flag.typeLiteral "Q" ∧ ∃ d ∈ bs.flatMap (·.named), d.1 = "Q" := by
  intro first second
  let q : Schema.Property := ⟨"q", true, false, .reference "Q"⟩
  let r : Schema.Property := ⟨"r", false, true, .reference "Q"⟩
  let x : Schema.Property := ⟨"x", false, false, .primitive .float⟩
  let T : TypeSet := ⟨[⟨"", ⟨[⟨"p", false, false, .reference "P"⟩], false⟩⟩, ⟨"P", ⟨[q], false⟩⟩,
    ⟨"Q", ⟨[], false⟩⟩]⟩
  let U : TypeSet := ⟨[⟨"", ⟨[r], false⟩⟩, ⟨"Q", ⟨[x], false⟩⟩]⟩
  have hT : first.flag.schema? = some (.ok T) := by decide +kernel
  have hU : second.flag.schema? = some (.ok U) := by decide +kernel
  have hclosed : T.Closed ∧ U.Closed := by
    simp only [TypeSet.Closed, TypeSet.forall_hasProperty_iff, TypeSet.forall_hasObject_iff]
    simp [T, U, q, r, x, ObjectType.throughout_iff, TypeSet.named, TypeDecl.isMain]
  obtain ⟨bs, hbs, hreferences⟩ := namedTypes_declared_once [second, first]
  have hflags : bs.map (·.flag) = [first, second] := by
    rw [inKeyOrder_iff.1 hbs.order]
    simp [inOrder, List.mergeSort, first, second]
  have hnamed : bs.flatMap (·.named) = [("P", "\x7b q?: Q \x7d"), ("Q", "\x7b\x7d")] := by
    have hall : bs.flatMap (namedTypes ·.flag.flag) = [first, second].flatMap (namedTypes ·.flag) := by
      rw [← hflags, List.flatMap_map]
    rw [hbs.firsts, hall]
    decide +kernel
  have hrefers : RefersTo second.flag.typeLiteral "Q" := by
    obtain ⟨text, htext⟩ := exists_text_of_schema? hU
    have hreadable := U.readable_of_ofText htext ⟨"", ⟨[r], false⟩⟩ List.mem_cons_self
    have hbody : second.flag.typeLiteral = (⟨[r], false⟩ : ObjectType).declaration := by decide +kernel
    rw [hbody, ObjectType.refersTo_declaration_iff hreadable]
    exact ⟨_, .self _, r, List.mem_singleton_self r, rfl⟩
  obtain ⟨b, hb, hflag⟩ : ∃ b ∈ bs, b.flag = second := by
    rw [← List.mem_map, hflags]
    simp
  refine ⟨bs, hbs, hnamed, hrefers, hreferences ?_ (pascalCase b.flag.key, b.flag.flag.typeLiteral)
    (List.mem_flatMap.2 ⟨b, hb, by simp [Block.entries]⟩) "Q" (hflag ▸ hrefers)⟩
  intro f hf V hV
  rcases List.mem_cons.1 hf with rfl | hf
  · cases hU.symm.trans hV
    exact hclosed.2
  · obtain rfl := List.mem_singleton.1 hf
    cases hT.symm.trans hV
    exact hclosed.1

end Bundle

end TypedFlags
