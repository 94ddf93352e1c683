import TypedFlags.Proofs.Schema.Tree
import TypedFlags.Schema.Token
/-!
# The grammar of schemas

The context-free grammar, as the relation between a tree and the token sequences that it yields:

    types      := type+
    type       := ["type" identifier "=" | "interface" identifier] object
    object     := "{" [property ("," property)*] "}" ["[]"]
    property   := identifier ["?"] ":" propertyType ["[]"]
    propertyType := primitive | identifier | object

Below the heading of a type nothing is left open: a tree yields one sequence there
(`ObjectType.yields_iff`), and the function `tokens` computes it.

**The converse fails.** In `{ a: { }[] }` the suffix may be the object's or the property's, so two
trees yield these tokens. A tree is *object-first* if no property has a suffix that the object type
written in its place could have taken. `TypeSet.Yields.exists_objectFirst` turns any derivation into
an object-first one of the same tokens; that there is only one of those is a fact about reading
(`TypedFlags.Proofs.Schema.Parsing`).
-/

set_option autoImplicit false

namespace TypedFlags.Schema

/-- An optional token of the grammar: nothing, or the token alone. -/
def mark (present : Bool) (t : Token) : List Token := if present then [t] else []

@[simp] theorem mark_true {t : Token} : mark true t = [t] := rfl

@[simp] theorem mark_false {t : Token} : mark false t = [] := rfl

/-! ## Derivations -/

mutual

/-- `propertyType := primitive | identifier | object` -/
inductive PropertyType.Yields : PropertyType → List Token → Prop
  | primitive (kind : Primitive) : PropertyType.Yields (.primitive kind) [.primitive kind]
  | reference (name : String) : PropertyType.Yields (.reference name) [.identifier name]
  | object {o : ObjectType} {ts : List Token} (h : ObjectType.Yields o ts) :
      PropertyType.Yields (.object o) ts

/-- `property := identifier ["?"] ":" propertyType ["[]"]` -/
inductive Property.Yields : Property → List Token → Prop
  | intro {p : Property} {ts : List Token} (h : PropertyType.Yields p.type ts) :
      Property.Yields p
        ([.identifier p.name] ++ mark p.isOptional .question ++ [.colon] ++ ts ++
          mark p.isArray .arraySuffix)

/-- `[property ("," property)*]` -/
inductive Property.YieldList : List Property → List Token → Prop
  | nil : Property.YieldList [] []
  | one {p : Property} {ts : List Token} (h : Property.Yields p ts) : Property.YieldList [p] ts
  | more {p q : Property} {ps : List Property} {ts us : List Token} (h : Property.Yields p ts)
      (hs : Property.YieldList (q :: ps) us) :
      Property.YieldList (p :: q :: ps) (ts ++ [.comma] ++ us)

/-- `object := "{" [property ("," property)*] "}" ["[]"]` -/
inductive ObjectType.Yields : ObjectType → List Token → Prop
  | intro {o : ObjectType} {ts : List Token} (h : Property.YieldList o.properties ts) :
      ObjectType.Yields o
        ([.leftBrace] ++ ts ++ [.rightBrace] ++ mark o.isArray .arraySuffix)

end

/-- `["type" identifier "=" | "interface" identifier]`, with the name that it gives. -/
inductive Heads : String → List Token → Prop
  | unnamed : Heads "" []
  | type (name : String) : Heads name [.typeKeyword, .identifier name, .equals]
  | interface (name : String) : Heads name [.interfaceKeyword, .identifier name]

/-- `type := ["type" identifier "=" | "interface" identifier] object` -/
inductive TypeDecl.Yields : TypeDecl → List Token → Prop
  | intro {decl : TypeDecl} {hs ts : List Token} (hh : Heads decl.name hs)
      (hb : decl.body.Yields ts) : TypeDecl.Yields decl (hs ++ ts)

/-- `type*` -/
inductive TypeDecl.YieldList : List TypeDecl → List Token → Prop
  | nil : TypeDecl.YieldList [] []
  | cons {decl : TypeDecl} {decls : List TypeDecl} {ts us : List Token} (h : decl.Yields ts)
      (hs : TypeDecl.YieldList decls us) : TypeDecl.YieldList (decl :: decls) (ts ++ us)

/-- `types := type+` -/
def TypeSet.Yields (types : TypeSet) (ts : List Token) : Prop :=
  types.types ≠ [] ∧ TypeDecl.YieldList types.types ts

theorem TypeDecl.YieldList.append {as bs : List TypeDecl} {ts us : List Token}
    (ha : TypeDecl.YieldList as ts) (hb : TypeDecl.YieldList bs us) :
    TypeDecl.YieldList (as ++ bs) (ts ++ us) := by
  induction ha with
  | nil => exact hb
  | cons h _ ih =>
    rw [List.cons_append, List.append_assoc]
    exact .cons h ih

theorem TypeDecl.YieldList.snoc {decls : List TypeDecl} {decl : TypeDecl} {ts us : List Token}
    (hs : TypeDecl.YieldList decls ts) (h : decl.Yields us) :
    TypeDecl.YieldList (decls ++ [decl]) (ts ++ us) := by
  have : TypeDecl.YieldList [decl] us := by simpa using TypeDecl.YieldList.cons h .nil
  exact hs.append this

/-! ## The tokens of a tree -/

mutual

def PropertyType.tokens : PropertyType → List Token
  | .primitive kind => [.primitive kind]
  | .reference name => [.identifier name]
  | .object o => o.tokens

def Property.tokens : Property → List Token
  | ⟨name, isOptional, isArray, type⟩ =>
    [.identifier name] ++ mark isOptional .question ++ [.colon] ++ type.tokens ++
      mark isArray .arraySuffix

/-- The tokens of the properties of an object, with commas between them. -/
def Property.listTokens : List Property → List Token
  | [] => []
  | [p] => p.tokens
  | p :: ps => p.tokens ++ [.comma] ++ Property.listTokens ps

/-- The tokens of an object type. -/
def ObjectType.tokens : ObjectType → List Token
  | ⟨ps, isArray⟩ =>
    [.leftBrace] ++ Property.listTokens ps ++ [.rightBrace] ++ mark isArray .arraySuffix

end

theorem Property.tokens_eq (p : Property) :
    p.tokens = [.identifier p.name] ++ mark p.isOptional .question ++ [.colon] ++ p.type.tokens ++
      mark p.isArray .arraySuffix := by
  cases p; rfl

theorem Property.listTokens_cons_cons (p q : Property) (ps : List Property) :
    listTokens (p :: q :: ps) = p.tokens ++ [.comma] ++ listTokens (q :: ps) := rfl

theorem ObjectType.tokens_eq (o : ObjectType) :
    o.tokens = [.leftBrace] ++ Property.listTokens o.properties ++ [.rightBrace] ++
      mark o.isArray .arraySuffix := by
  cases o; rfl

mutual

theorem PropertyType.Yields.eq_tokens : ∀ {t : PropertyType} {ts : List Token},
    t.Yields ts → ts = t.tokens
  | _, _, .primitive _ => rfl
  | _, _, .reference _ => rfl
  | _, _, .object h => h.eq_tokens

theorem Property.Yields.eq_tokens : ∀ {p : Property} {ts : List Token},
    p.Yields ts → ts = p.tokens
  | p, _, .intro h => by rw [h.eq_tokens, p.tokens_eq]

theorem Property.YieldList.eq_listTokens : ∀ {ps : List Property} {ts : List Token},
    Property.YieldList ps ts → ts = Property.listTokens ps
  | _, _, .nil => rfl
  | _, _, .one h => by rw [h.eq_tokens]; rfl
  | _, _, .more h hs => by rw [h.eq_tokens, hs.eq_listTokens]; rfl

theorem ObjectType.Yields.eq_tokens : ∀ {o : ObjectType} {ts : List Token},
    o.Yields ts → ts = o.tokens
  | o, _, .intro h => by rw [h.eq_listTokens, o.tokens_eq]

end

theorem Property.yields_tokens {p : Property} (h : p.type.Yields p.type.tokens) :
    p.Yields p.tokens := by
  rw [p.tokens_eq]
  exact .intro h

theorem Property.yieldList_listTokens {ps : List Property} (h : ∀ p ∈ ps, p.Yields p.tokens) :
    Property.YieldList ps (Property.listTokens ps) := by
  induction ps with
  | nil => exact .nil
  | cons p ps ih =>
    have hp := h p (by simp)
    have hps := ih fun q hq => h q (by simp [hq])
    cases ps with
    | nil => exact .one hp
    | cons q ps => exact .more hp hps

theorem PropertyType.yields_tokens (t : PropertyType) : t.Yields t.tokens := by
  induction t using PropertyType.induction_on_objects with
  | primitive kind => exact .primitive kind
  | reference name => exact .reference name
  | object o ih =>
    have hps := Property.yieldList_listTokens fun p hp => Property.yields_tokens (ih p hp)
    rw [PropertyType.tokens, o.tokens_eq]
    exact .object (.intro hps)

/-- **An object type yields its tokens and nothing else.** -/
theorem ObjectType.yields_iff {o : ObjectType} {ts : List Token} : o.Yields ts ↔ ts = o.tokens := by
  constructor
  · exact Yields.eq_tokens
  · rintro rfl
    cases (PropertyType.object o).yields_tokens with
    | object h => exact h

/-! ## Suffixes -/

/-- If a property has a suffix and an object type in its place, then the object type has one too:
    the first `[]` behind an inline object is the object's. -/
def Property.ObjectFirst (p : Property) : Prop :=
  p.isArray = true → ∀ o, p.type = .object o → o.isArray = true

/-- The properties of an object type are object-first. -/
def ObjectType.ObjectFirst (o : ObjectType) : Prop := ∀ p ∈ o.properties, p.ObjectFirst

/-- All properties of a set, at every depth, are object-first. -/
def TypeSet.ObjectFirst (types : TypeSet) : Prop := ∀ p, types.HasProperty p → p.ObjectFirst

theorem TypeSet.objectFirst_iff {types : TypeSet} :
    types.ObjectFirst ↔ ∀ decl ∈ types.types, decl.body.Throughout ObjectType.ObjectFirst := by
  rw [TypeSet.ObjectFirst, TypeSet.forall_hasProperty_iff]
  exact TypeSet.forall_hasObject_iff

theorem Property.listTokens_congr : ∀ {ps qs : List Property},
    ps.map Property.tokens = qs.map Property.tokens → listTokens ps = listTokens qs
  | [], [], _ => rfl
  | [], _ :: _, h | _ :: _, [], h => by simp at h
  | [p], [q], h => by simpa [listTokens] using h
  | [_], _ :: _ :: _, h | _ :: _ :: _, [_], h => by simp at h
  | p :: p' :: ps, q :: q' :: qs, h => by
    obtain ⟨hp, hps⟩ := List.cons_eq_cons.1 h
    have ih : listTokens (p' :: ps) = listTokens (q' :: qs) := listTokens_congr hps
    simp only [listTokens, hp, ih]

/-- A suffix that a property has and its object could take is handed to the object. -/
theorem Property.exists_objectFirst (p : Property)
    (h : p.type.Throughout ObjectType.ObjectFirst) :
    ∃ q : Property, q.tokens = p.tokens ∧ q.ObjectFirst ∧
      q.type.Throughout ObjectType.ObjectFirst := by
  by_cases hp : p.ObjectFirst
  · exact ⟨p, rfl, hp, h⟩
  · obtain ⟨name, isOptional, isArray, type⟩ := p
    simp only [ObjectFirst, Classical.not_imp, Classical.not_forall] at hp
    obtain ⟨rfl, ⟨qs, isArray⟩, rfl, ha⟩ := hp
    have ha : isArray = false := by simpa using ha
    subst ha
    -- The suffix moves from the property to the object before it; the tokens stay where they are.
    refine ⟨⟨name, isOptional, false, .object ⟨qs, true⟩⟩, ?_, ?_, ?_⟩
    · simp [Property.tokens, PropertyType.tokens, ObjectType.tokens]
    · intro h; cases h
    · rw [PropertyType.throughout_object, ObjectType.throughout_iff] at h ⊢
      exact h

theorem Property.exists_objectFirst_list {ps : List Property}
    (h : ∀ p ∈ ps, ∃ t : PropertyType, t.tokens = p.type.tokens ∧
      t.Throughout ObjectType.ObjectFirst) :
    ∃ qs : List Property, qs.map Property.tokens = ps.map Property.tokens ∧
      ∀ q ∈ qs, q.ObjectFirst ∧ q.type.Throughout ObjectType.ObjectFirst := by
  induction ps with
  | nil => exact ⟨[], rfl, by simp⟩
  | cons p ps ih =>
    obtain ⟨t, ht, hall⟩ := h p (by simp)
    obtain ⟨q, hq, hof, hthr⟩ := Property.exists_objectFirst { p with type := t } hall
    obtain ⟨qs, hqs, hrest⟩ := ih fun p' hp' => h p' (by simp [hp'])
    have hp : q.tokens = p.tokens := by rw [hq, p.tokens_eq, Property.tokens_eq, ht]
    refine ⟨q :: qs, by rw [List.map_cons, List.map_cons, hp, hqs], ?_⟩
    intro q' hq'
    rcases List.mem_cons.1 hq' with rfl | hm
    · exact ⟨hof, hthr⟩
    · exact hrest q' hm

theorem PropertyType.exists_objectFirst (t : PropertyType) :
    ∃ t' : PropertyType, t'.tokens = t.tokens ∧ t'.Throughout ObjectType.ObjectFirst := by
  induction t using PropertyType.induction_on_objects with
  | primitive kind => exact ⟨.primitive kind, rfl, by simp⟩
  | reference name => exact ⟨.reference name, rfl, by simp⟩
  | object o ih =>
    obtain ⟨qs, hqs, hall⟩ := Property.exists_objectFirst_list ih
    refine ⟨.object ⟨qs, o.isArray⟩, ?_, ?_⟩
    · simp only [PropertyType.tokens, ObjectType.tokens_eq, Property.listTokens_congr hqs]
    · rw [PropertyType.throughout_object, ObjectType.throughout_iff]
      exact ⟨fun p hp => (hall p hp).1, fun p hp => (hall p hp).2⟩

theorem ObjectType.exists_objectFirst (o : ObjectType) :
    ∃ o' : ObjectType, o'.tokens = o.tokens ∧ o'.Throughout ObjectType.ObjectFirst := by
  obtain ⟨qs, hqs, hall⟩ :=
    Property.exists_objectFirst_list fun p (_ : p ∈ o.properties) => p.type.exists_objectFirst
  refine ⟨⟨qs, o.isArray⟩, ?_, ?_⟩
  · rw [o.tokens_eq, ObjectType.tokens, Property.listTokens_congr hqs]
  · rw [ObjectType.throughout_iff]
    exact ⟨fun p hp => (hall p hp).1, fun p hp => (hall p hp).2⟩

theorem TypeDecl.YieldList.exists_objectFirst {decls : List TypeDecl} {ts : List Token}
    (h : TypeDecl.YieldList decls ts) :
    ∃ decls', TypeDecl.YieldList decls' ts ∧ decls'.length = decls.length ∧
      ∀ decl ∈ decls', decl.body.Throughout ObjectType.ObjectFirst := by
  induction h with
  | nil => exact ⟨[], .nil, rfl, by simp⟩
  | @cons decl decls ts us h _ ih =>
    obtain ⟨decls', hl, hlen, hall⟩ := ih
    cases h with
    | intro hh hb =>
      obtain ⟨body, hbody, hof⟩ := decl.body.exists_objectFirst
      have hd : TypeDecl.Yields ⟨decl.name, body⟩ _ :=
        .intro hh (ObjectType.yields_iff.2 ((ObjectType.yields_iff.1 hb).trans hbody.symm))
      refine ⟨⟨decl.name, body⟩ :: decls', .cons hd hl, by simp [hlen], ?_⟩
      rw [List.forall_mem_cons]
      exact ⟨hof, hall⟩

/-- **Every derivable token sequence has an object-first derivation.** -/
theorem TypeSet.Yields.exists_objectFirst {T : TypeSet} {ts : List Token} (h : T.Yields ts) :
    ∃ U : TypeSet, U.Yields ts ∧ U.ObjectFirst := by
  obtain ⟨hne, hl⟩ := h
  obtain ⟨decls, hl', hlen, hall⟩ := hl.exists_objectFirst
  have hne' : decls ≠ [] := by
    rintro rfl
    exact hne (List.length_eq_zero_iff.1 hlen.symm)
  exact ⟨⟨decls⟩, ⟨hne', hl'⟩, TypeSet.objectFirst_iff.2 hall⟩

end TypedFlags.Schema
