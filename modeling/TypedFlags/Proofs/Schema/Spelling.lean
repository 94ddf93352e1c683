import TypedFlags.Proofs.Schema.Grammar
import TypedFlags.Proofs.Schema.Scan
/-!
# What a draft has read

A draft can be written out again: its complete types, the heading of the type being read, and each
open object as far as it has come. `Draft.Spells d ts` says that `ts` is such a writing, and every
move appends its token to it (`Draft.Reads.scan`). So a scan that ends between types has read a
sequence that the grammar yields, and it ends with the tree of an object-first derivation of that
sequence (`Draft.yields_of_scans`).

**Why object-first.** A suffix can only go to a property if the place behind its type was reached
without an object, or if the object behind which it stands has a suffix already: otherwise
`Draft.advance?` gives the suffix to the object.
-/

set_option autoImplicit false

namespace TypedFlags.Schema

/-! ## Tokens of what is open -/

/-- Properties with a comma behind each. -/
def commaTokens (ps : List Property) : List Token := ps.flatMap fun p => p.tokens ++ [.comma]

@[simp] theorem commaTokens_append {ps qs : List Property} :
    commaTokens (ps ++ qs) = commaTokens ps ++ commaTokens qs := List.flatMap_append

@[simp] theorem commaTokens_singleton {p : Property} : commaTokens [p] = p.tokens ++ [.comma] := by
  simp [commaTokens]

theorem listTokens_snoc {ps : List Property} {p : Property} :
    Property.listTokens (ps ++ [p]) = commaTokens ps ++ p.tokens := by
  induction ps with
  | nil => rfl
  | cons q ps ih =>
    have hc : Property.listTokens (q :: (ps ++ [p])) =
        q.tokens ++ [.comma] ++ Property.listTokens (ps ++ [p]) := by
      cases ps <;> rfl
    rw [List.cons_append, hc, ih, commaTokens, commaTokens, List.flatMap_cons]
    simp only [List.append_assoc]

theorem commaTokens_eq {ps : List Property} (h : ps ≠ []) :
    commaTokens ps = Property.listTokens ps ++ [.comma] := by
  rw [← List.dropLast_concat_getLast h, listTokens_snoc, commaTokens_append, commaTokens_singleton,
    List.append_assoc]

def Heading.tokens (h : Heading) : List Token :=
  [.identifier h.name] ++ mark h.isOptional .question ++ [.colon]

@[simp] theorem Heading.isArray_property {h : Heading} {type : PropertyType} :
    (h.property type).isArray = false := rfl

theorem Heading.tokens_property {h : Heading} {type : PropertyType} :
    (h.property type).tokens = h.tokens ++ type.tokens := by
  simp [Heading.property, Property.tokens, Heading.tokens]

def Enclosing.tokens (e : Enclosing) : List Token :=
  [.leftBrace] ++ commaTokens e.properties ++ e.heading.tokens

/-- The tokens of the objects around the innermost open one. -/
def outerTokens : List Enclosing → List Token
  | [] => []
  | e :: es => outerTokens es ++ e.tokens

/-- The tokens of the innermost open object, up to the place reached. -/
def Place.tokens (ps : List Property) : Place → List Token
  | .start => [.leftBrace]
  | .afterComma => [.leftBrace] ++ commaTokens ps
  | .afterName n => [.leftBrace] ++ commaTokens ps ++ [.identifier n]
  | .afterQuestion n => [.leftBrace] ++ commaTokens ps ++ [.identifier n, .question]
  | .afterColon h => [.leftBrace] ++ commaTokens ps ++ h.tokens
  | .afterType p => [.leftBrace] ++ commaTokens ps ++ p.tokens
  | .afterProperty => [.leftBrace] ++ Property.listTokens ps
  | .afterBrace isArray => ObjectType.tokens ⟨ps, isArray⟩

/-- The properties so far agree with the place: none at the start of an object, and some behind
    one. A property whose `[]` may still come is not an array. -/
def Place.Fits (ps : List Property) : Place → Prop
  | .start => ps = []
  | .afterType p => p.isArray = false
  | .afterProperty => ps ≠ []
  | _ => True

theorem Move.tokens {outer outer' : List Enclosing} {ps ps' : List Property} {place place' : Place}
    {t : Token} (h : Move outer ps place t outer' ps' place') (hf : place.Fits ps) :
    outerTokens outer' ++ place'.tokens ps' = outerTokens outer ++ place.tokens ps ++ [t] ∧
      place'.Fits ps' := by
  cases h with
  | firstName n => cases hf; simp [Place.tokens, Place.Fits, commaTokens]
  | closeEmpty => cases hf; simp [Place.tokens, Place.Fits, ObjectType.tokens, Property.listTokens]
  | nextName n => simp [Place.tokens, Place.Fits]
  | question n => simp [Place.tokens, Place.Fits]
  | colon n => simp [Place.tokens, Place.Fits, Heading.tokens]
  | optionalColon n => simp [Place.tokens, Place.Fits, Heading.tokens]
  | primitive h k => simp [Place.tokens, Place.Fits, Heading.tokens_property, PropertyType.tokens]
  | reference h r => simp [Place.tokens, Place.Fits, Heading.tokens_property, PropertyType.tokens]
  | openObject h => simp [Place.tokens, Place.Fits, outerTokens, Enclosing.tokens]
  | suffix p =>
    have hp : p.isArray = false := hf
    simp [Place.tokens, Place.Fits, listTokens_snoc, Property.tokens_eq, hp]
  | comma p => simp [Place.tokens, Place.Fits]
  | close p => simp [Place.tokens, Place.Fits, ObjectType.tokens, listTokens_snoc]
  | commaAfterSuffix => simp [Place.tokens, Place.Fits, commaTokens_eq hf]
  | closeAfterSuffix => simp [Place.tokens, Place.Fits, ObjectType.tokens]
  | objectSuffix => simp [Place.tokens, Place.Fits, ObjectType.tokens]

/-! ## Tokens of a draft -/

/-- The tokens of the type being read. -/
inductive Stage.Spells : Stage → List Token → Prop
  | between : Spells .between []
  | afterType : Spells .afterType [.typeKeyword]
  | afterTypeName (n : String) : Spells (.afterTypeName n) [.typeKeyword, .identifier n]
  | afterInterface : Spells .afterInterface [.interfaceKeyword]
  | body {n : String} {hs : List Token} (hh : Heads n hs) : Spells (.body n) hs
  | inside {n : String} {outer : List Enclosing} {ps : List Property} {place : Place}
      {hs : List Token} (hh : Heads n hs) (hf : place.Fits ps) :
      Spells (.inside n outer ps place) (hs ++ (outerTokens outer ++ place.tokens ps))

/-- The tokens of a draft: those of its complete types and of the type being read. -/
def Draft.Spells (d : Draft) (ts : List Token) : Prop :=
  ∃ us vs, TypeDecl.YieldList d.types us ∧ d.stage.Spells vs ∧ us ++ vs = ts

theorem Stage.Spells.advance {s s' : Stage} {t : Token} {ts : List Token} (h : s.Spells ts)
    (hadv : s.Advance t s') : s'.Spells (ts ++ [t]) := by
  cases hadv with
  | typeKeyword => cases h; exact .afterType
  | interfaceKeyword => cases h; exact .afterInterface
  | unnamed => cases h; exact .inside .unnamed rfl
  | typeName n => cases h; exact .afterTypeName n
  | equals n => cases h; exact .body (.type n)
  | interfaceName n => cases h; exact .body (.interface n)
  | body n =>
    cases h with
    | body hh => exact .inside hh rfl
  | inside n hm =>
    cases h with
    | inside hh hf =>
      obtain ⟨ht, hf'⟩ := hm.tokens hf
      rw [List.append_assoc, ← ht]
      exact .inside hh hf'

theorem Draft.Spells.advance {d d' : Draft} {t : Token} {ts : List Token} (h : d.Spells ts)
    (ha : d.advance? t = some d') : d'.Spells (ts ++ [t]) := by
  obtain ⟨us, vs, hus, hvs, rfl⟩ := h
  obtain ⟨hty, hadv⟩ := advance?_eq_some_iff.1 ha
  exact ⟨us, vs ++ [t], hty ▸ hus, hvs.advance hadv, by simp⟩

theorem Draft.Spells.closed {d : Draft} {ts : List Token} (h : d.Spells ts) :
    d.closed.Spells ts := by
  obtain ⟨us, vs, hus, hvs, rfl⟩ := h
  obtain ⟨types, stage⟩ := d
  dsimp only [Draft.closed]
  split
  · next n outer ps isArray =>
    cases hvs with
    | inside hh hf =>
      cases outer with
      | nil =>
        have hd : TypeDecl.Yields ⟨n, ⟨ps, isArray⟩⟩ _ := .intro hh (ObjectType.yields_iff.2 rfl)
        exact ⟨_, [], hus.snoc hd, .between, by simp [outerTokens, Place.tokens]⟩
      | cons e outer =>
        refine ⟨us, _, hus, .inside hh (by rfl), ?_⟩
        simp [outerTokens, Place.tokens, Enclosing.tokens, Heading.tokens_property,
          PropertyType.tokens]
  · exact ⟨us, vs, hus, hvs, rfl⟩

/-! ## Suffixes go to objects first -/

/-- The type just read, if its `[]` may still come, is not an object type. -/
def Stage.NoObject (s : Stage) : Prop :=
  ∀ n outer ps p, s = .inside n outer ps (.afterType p) → ∀ o, p.type ≠ .object o

/-- Behind the type just read, a suffix is the property's: the type is no object type, or has its
    own. -/
def Stage.SuffixFree (s : Stage) : Prop :=
  ∀ n outer ps p, s = .inside n outer ps (.afterType p) →
    ∀ o, p.type = .object o → o.isArray = true

theorem Stage.Advance.noObject {s s' : Stage} {t : Token} (h : s.Advance t s') : s'.NoObject := by
  intro n outer ps p hs o ho
  subst hs
  cases h with
  | inside n hm => cases hm <;> cases ho

theorem Stage.NoObject.suffixFree {s : Stage} (h : s.NoObject) : s.SuffixFree := by
  intro n outer ps p hs o ho
  exact absurd ho (h n outer ps p hs o)

/-- An object that a suffix is not given to has one. -/
theorem Draft.suffixFree_closed {d : Draft} (h : d.stage.NoObject)
    (ha : d.advance? .arraySuffix = none) : d.closed.stage.SuffixFree := by
  obtain ⟨types, stage⟩ := d
  dsimp only [Draft.closed]
  split
  · next n outer ps isArray =>
    cases outer with
    | nil => intro n outer ps p hs; cases hs
    | cons e outer =>
      intro n' outer' ps' p hs o ho
      cases hs
      cases ho
      cases isArray with
      | true => rfl
      | false => cases ha
  · exact h.suffixFree

theorem Property.ObjectFirst.of_isArray {p : Property} (h : p.isArray = false) : p.ObjectFirst := by
  intro ha
  rw [h] at ha
  cases ha

/-- The properties of the open objects are object-first, and so are all objects inside. -/
def Draft.ObjectFirst (d : Draft) : Prop :=
  d.Throughout ObjectType.ObjectFirst ∧ ∀ p ∈ d.stage.pending, p.ObjectFirst

theorem Stage.Advance.objectFirst {s s' : Stage} {t : Token} (h : s.Advance t s')
    (hs : t = .arraySuffix → s.SuffixFree) (hp : ∀ p ∈ s.pending, p.ObjectFirst) :
    ∀ p ∈ s'.pending, p.ObjectFirst := by
  cases h with
  | inside n hm =>
    cases hm with
    | primitive h k | reference h k =>
      rw [Stage.pending, List.cons_append, List.forall_mem_cons]
      exact ⟨.of_isArray Heading.isArray_property, hp⟩
    | suffix p =>
      have hsuffix : ({ p with isArray := true } : Property).ObjectFirst :=
        fun _ o ho => hs rfl _ _ _ p rfl o ho
      rw [Stage.pending, List.cons_append, List.forall_mem_cons, List.forall_mem_append] at hp
      rw [Stage.pending, List.forall_mem_append, List.forall_mem_append, List.forall_mem_singleton]
      · exact ⟨⟨hp.2.1, hsuffix⟩, hp.2.2⟩
      · intro p h; cases h
    | comma p | close p =>
      rw [Stage.pending, List.cons_append, List.forall_mem_cons, List.forall_mem_append] at hp
      rw [Stage.pending, List.forall_mem_append, List.forall_mem_append, List.forall_mem_singleton]
      · exact ⟨⟨hp.2.1, hp.1⟩, hp.2.2⟩
      · intro p h; cases h
    | _ => simpa [Stage.pending] using hp
  | _ => simp [Stage.pending]

theorem Draft.ObjectFirst.advance {d d' : Draft} {t : Token} (h : d.ObjectFirst)
    (ha : d.advance? t = some d') (hs : t = .arraySuffix → d.stage.SuffixFree) :
    d'.ObjectFirst := by
  obtain ⟨⟨hty, hpt⟩, hp⟩ := h
  obtain ⟨he, hadv⟩ := advance?_eq_some_iff.1 ha
  exact ⟨⟨he ▸ hty, hadv.throughout.2 hpt⟩, hadv.objectFirst hs hp⟩

theorem Draft.ObjectFirst.closed {d : Draft} (h : d.ObjectFirst) : d.closed.ObjectFirst := by
  obtain ⟨ht, hp⟩ := h
  have hc : ∀ o, d.closing? = some o → o.ObjectFirst :=
    fun o ho p hpo => hp p (mem_pending ho hpo)
  refine ⟨throughout_closed.2 ⟨ht, hc⟩, ?_⟩
  obtain ⟨types, stage⟩ := d
  dsimp only [Draft.closed] at hp ⊢
  split
  · next n outer ps isArray =>
    cases outer with
    | nil => simp [Stage.pending]
    | cons e outer =>
      simp only [Stage.pending, List.flatMap_cons, List.forall_mem_append, List.cons_append,
        List.forall_mem_cons] at hp ⊢
      exact ⟨.of_isArray Heading.isArray_property, hp.2⟩
  · exact hp

/-! ## The invariant of a scan -/

/-- A draft is what has been read of `ts`, with suffixes given to objects first. -/
structure Draft.Reads (d : Draft) (ts : List Token) : Prop where
  spells : d.Spells ts
  objectFirst : d.ObjectFirst
  noObject : d.stage.NoObject

theorem Draft.reads_empty : Draft.empty.Reads [] where
  spells := ⟨[], [], .nil, .between, rfl⟩
  objectFirst := ⟨⟨by simp [empty], by simp [empty, Stage.pending]⟩, by simp [empty, Stage.pending]⟩
  noObject := by intro n outer ps p hs; cases hs

/-- **One token is read.** -/
theorem Draft.Reads.scan {d d' : Draft} {t : Token} {ts : List Token} (h : d.Reads ts)
    (hs : d.scan t = some d') : d'.Reads (ts ++ [t]) := by
  -- A suffix that the closed object does not take finds a type that is no object, or has its own.
  cases ha : d.advance? t with
  | some next =>
    rw [scan_of_advance? ha, Option.some.injEq] at hs
    subst hs
    exact ⟨h.spells.advance ha, h.objectFirst.advance ha fun _ => h.noObject.suffixFree,
      (advance?_eq_some_iff.1 ha).2.noObject⟩
  | none =>
    rw [scan_of_closed ha] at hs
    refine ⟨h.spells.closed.advance hs, h.objectFirst.closed.advance hs ?_,
      (advance?_eq_some_iff.1 hs).2.noObject⟩
    rintro rfl
    exact suffixFree_closed h.noObject ha

theorem Draft.Reads.scans {d d' : Draft} {ts us : List Token} (h : d.Reads us)
    (hs : ts.foldlM Draft.scan d = some d') : d'.Reads (us ++ ts) := by
  induction ts generalizing d us with
  | nil => cases hs; simpa using h
  | cons t ts ih =>
    rw [List.foldlM_cons] at hs
    obtain ⟨e, he, hs⟩ := Option.bind_eq_some_iff.1 hs
    simpa using ih (h.scan he) hs

/-- **A scan that ends between types has read what the grammar yields.** -/
theorem Draft.yields_of_scans {d : Draft} {ts : List Token} {T : TypeSet}
    (hs : ts.foldlM Draft.scan Draft.empty = some d) (hc : d.closed = ⟨T.types, .between⟩)
    (hne : T.types ≠ []) : T.Yields ts ∧ T.ObjectFirst := by
  have h := Draft.reads_empty.scans hs
  obtain ⟨us, vs, hus, hvs, hts⟩ := h.spells.closed
  have hof := h.objectFirst.closed
  rw [hc] at hus hvs hof
  cases hvs
  simp only [List.nil_append, List.append_nil] at hts
  exact ⟨⟨hne, hts ▸ hus⟩, TypeSet.objectFirst_iff.2 hof.1.1⟩

end TypedFlags.Schema
