import TypedFlags.Proofs.Schema.Grammar
/-!
# Nesting

How deep the objects of a tree stand inside each other, and what the count of open braces in a token
sequence (`tooDeep?`) has to do with it. The count is kept over the whole text and knows nothing of
the grammar, but the tokens of a tree close all that they open. So of the tokens of an object the
count says how deep the object is, and behind them it stands where it stood before
(`ObjectType.shallow_tokens`).
-/

set_option autoImplicit false

namespace TypedFlags.Schema

mutual

/-- How many objects stand inside each other in a property type. -/
def PropertyType.nesting : PropertyType → Nat
  | .primitive _ | .reference _ => 0
  | .object o => o.nesting

def Property.nesting : Property → Nat
  | ⟨_, _, _, type⟩ => type.nesting

/-- The deepest nesting among properties. -/
def Property.listNesting : List Property → Nat
  | [] => 0
  | p :: ps => max p.nesting (Property.listNesting ps)

/-- How many objects stand inside each other in an object type, itself among them. -/
def ObjectType.nesting : ObjectType → Nat
  | ⟨ps, _⟩ => Property.listNesting ps + 1

end

/-- No `{` of a token sequence opens an object beyond the limit, with `depth` objects open before
    it. -/
def Shallow (depth : Nat) : List Token → Prop
  | [] => True
  | .leftBrace :: ts => depth < maxNesting ∧ Shallow (depth + 1) ts
  | .rightBrace :: ts => Shallow (depth - 1) ts
  | _ :: ts => Shallow depth ts

theorem tooDeep?_eq_none_iff {d : Nat} {ls : List Lexeme} :
    tooDeep? d ls = none ↔ Shallow d (ls.map (·.token)) := by
  induction ls generalizing d with
  | nil => simp [tooDeep?, Shallow]
  | cons l ls ih =>
    obtain ⟨offset, t⟩ := l
    cases t with
    | leftBrace =>
      rw [List.map_cons, Shallow, tooDeep?]
      by_cases h : maxNesting ≤ d
      · simp [h, Nat.not_lt.2 h]
      · simp [h, Nat.lt_of_not_le h, ih]
    | _ => exact ih

theorem shallow_plain {d : Nat} {ts rest : List Token}
    (h : ∀ t ∈ ts, t ≠ .leftBrace ∧ t ≠ .rightBrace) :
    Shallow d (ts ++ rest) ↔ Shallow d rest := by
  induction ts with
  | nil => rfl
  | cons t ts ih =>
    obtain ⟨⟨hl, hr⟩, hts⟩ := List.forall_mem_cons.1 h
    cases t with
    | leftBrace => exact absurd rfl hl
    | rightBrace => exact absurd rfl hr
    | _ => exact ih hts

theorem shallow_arraySuffix {d : Nat} {present : Bool} {rest : List Token} :
    Shallow d (mark present .arraySuffix ++ rest) ↔ Shallow d rest := by
  apply shallow_plain
  cases present <;> simp

/-- A tree is counted as deep as it is, and closes all that it opens. -/
def CountedAsDeep (nesting : Nat) (ts : List Token) : Prop :=
  ∀ (d : Nat) (rest : List Token), d ≤ maxNesting →
    (Shallow d (ts ++ rest) ↔ d + nesting ≤ maxNesting ∧ Shallow d rest)

theorem CountedAsDeep.property {p : Property} (h : CountedAsDeep p.type.nesting p.type.tokens) :
    CountedAsDeep p.nesting p.tokens := by
  obtain ⟨name, isOptional, isArray, type⟩ := p
  intro d rest hd
  have hhead : Shallow d (([.identifier name] ++ mark isOptional .question ++ [.colon]) ++
      (type.tokens ++ (mark isArray .arraySuffix ++ rest))) ↔
      Shallow d (type.tokens ++ (mark isArray .arraySuffix ++ rest)) := by
    apply shallow_plain
    cases isOptional <;> simp
  have htype := h d (mark isArray .arraySuffix ++ rest) hd
  rw [shallow_arraySuffix] at htype
  rw [Property.tokens, Property.nesting, ← htype, ← hhead]
  simp

theorem CountedAsDeep.list {ps : List Property} (h : ∀ p ∈ ps, CountedAsDeep p.nesting p.tokens) :
    CountedAsDeep (Property.listNesting ps) (Property.listTokens ps) := by
  induction ps with
  | nil =>
    intro d rest hd
    simp [Property.listTokens, Property.listNesting, hd]
  | cons p ps ih =>
    obtain ⟨hp, hps⟩ := List.forall_mem_cons.1 h
    intro d rest hd
    cases ps with
    | nil => simpa [Property.listTokens, Property.listNesting] using hp d rest hd
    | cons q ps =>
      have hrest := ih hps d rest hd
      have hcomma : Shallow d ([.comma] ++ (Property.listTokens (q :: ps) ++ rest)) ↔
          Shallow d (Property.listTokens (q :: ps) ++ rest) := shallow_plain (by simp)
      have hall := hp d ([.comma] ++ (Property.listTokens (q :: ps) ++ rest)) hd
      rw [hcomma, hrest, ← and_assoc] at hall
      have hmax : Property.listNesting (p :: q :: ps) =
          max p.nesting (Property.listNesting (q :: ps)) := rfl
      -- The first property and the others are counted from the same depth.
      have hdeep : (d + p.nesting ≤ maxNesting ∧
          d + Property.listNesting (q :: ps) ≤ maxNesting) ↔
          d + Property.listNesting (p :: q :: ps) ≤ maxNesting := by
        rw [hmax]
        omega
      rw [← hdeep, ← hall, Property.listTokens_cons_cons, List.append_assoc, List.append_assoc]

theorem CountedAsDeep.object {o : ObjectType}
    (h : ∀ p ∈ o.properties, CountedAsDeep p.nesting p.tokens) :
    CountedAsDeep o.nesting o.tokens := by
  obtain ⟨ps, isArray⟩ := o
  have hlist : CountedAsDeep (Property.listNesting ps) (Property.listTokens ps) := .list h
  intro d rest hd
  have hopen : Shallow d (ObjectType.tokens ⟨ps, isArray⟩ ++ rest) ↔ d < maxNesting ∧
      Shallow (d + 1)
        (Property.listTokens ps ++ (.rightBrace :: (mark isArray .arraySuffix ++ rest))) := by
    simp [ObjectType.tokens, Shallow]
  have hclose : Shallow (d + 1) (.rightBrace :: (mark isArray .arraySuffix ++ rest)) ↔
      Shallow d rest := by
    rw [Shallow, Nat.add_sub_cancel, shallow_arraySuffix]
  -- Between the braces one more object is open, and behind them none.
  rw [hopen, ObjectType.nesting]
  constructor
  · rintro ⟨hlt, hin⟩
    obtain ⟨hdeep, hrest⟩ := (hlist (d + 1) _ hlt).1 hin
    exact ⟨by omega, hclose.1 hrest⟩
  · rintro ⟨hdeep, hrest⟩
    have hlt : d < maxNesting := by omega
    exact ⟨hlt, (hlist (d + 1) _ hlt).2 ⟨by omega, hclose.2 hrest⟩⟩

theorem PropertyType.countedAsDeep (t : PropertyType) : CountedAsDeep t.nesting t.tokens := by
  induction t using PropertyType.induction_on_objects with
  | primitive kind =>
    intro d rest hd
    simp [PropertyType.tokens, PropertyType.nesting, Shallow, hd]
  | reference name =>
    intro d rest hd
    simp [PropertyType.tokens, PropertyType.nesting, Shallow, hd]
  | object o ih => exact .object fun p hp => .property (ih p hp)

/-- **The count of open braces is the nesting of the tree.** -/
theorem ObjectType.shallow_tokens {o : ObjectType} {rest : List Token} :
    Shallow 0 (o.tokens ++ rest) ↔ o.nesting ≤ maxNesting ∧ Shallow 0 rest := by
  have := (PropertyType.object o).countedAsDeep 0 rest (Nat.zero_le _)
  rwa [Nat.zero_add, PropertyType.nesting, PropertyType.tokens] at this

theorem TypeDecl.Yields.shallow_append {decl : TypeDecl} {ts rest : List Token}
    (h : decl.Yields ts) :
    Shallow 0 (ts ++ rest) ↔ decl.body.nesting ≤ maxNesting ∧ Shallow 0 rest := by
  cases h with
  | intro hh hb =>
    -- The tokens of a heading open and close nothing.
    rw [ObjectType.yields_iff.1 hb, ← ObjectType.shallow_tokens]
    generalize decl.name = name at hh
    cases hh with
    | unnamed => rfl
    | type => rfl
    | interface => rfl

end TypedFlags.Schema
