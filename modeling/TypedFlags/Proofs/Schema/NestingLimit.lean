import TypedFlags.Proofs.Schema.Nesting
import TypedFlags.Proofs.Schema.Spelling
import TypedFlags.Proofs.Text.Position
/-!
# The limit on nesting

The limit is checked before the grammar is applied, by counting braces. What the count is worth is
shown in both directions.

* **It is exact.** In a text that follows the grammar the count before a `{` is one less than the level
  of the object that the brace opens (`TypeSet.opens_iff`). So such a text is refused for its nesting
  exactly if an object stands too deep, at the first that does.
* **It protects the reading.** At every draft that is reached, the count is the number of objects that
  are open there (`Draft.openObjects_scan`), whether or not the grammar is followed further on. So
  where the count passes, a reader that could not hold more than the allowed number of open objects
  would notice nothing (`Draft.Within.runWithin`).
-/

set_option autoImplicit false

namespace TypedFlags.Schema

/-! ## The count -/

/-- The number of open braces behind a token, with `depth` open before it. A `}` too many closes
    nothing. -/
def Token.openAfter (depth : Nat) : Token → Nat
  | .leftBrace => depth + 1
  | .rightBrace => depth - 1
  | _ => depth

/-- The number of open braces behind some tokens. -/
def openAfter (depth : Nat) (ts : List Token) : Nat := ts.foldl Token.openAfter depth

@[simp] theorem openAfter_nil {d : Nat} : openAfter d [] = d := rfl

@[simp] theorem openAfter_cons {d : Nat} {t : Token} {ts : List Token} :
    openAfter d (t :: ts) = openAfter (t.openAfter d) ts := rfl

@[simp] theorem openAfter_append {d : Nat} {ts us : List Token} :
    openAfter d (ts ++ us) = openAfter (openAfter d ts) us := List.foldl_append

theorem shallow_cons {d : Nat} {t : Token} {ts : List Token} :
    Shallow d (t :: ts) ↔ (t = .leftBrace → d < maxNesting) ∧ Shallow (t.openAfter d) ts := by
  cases t <;> simp [Shallow, Token.openAfter]

/-- A token sequence is shallow if the count is below the limit before each of its opening braces. -/
theorem shallow_iff {d : Nat} {ts : List Token} :
    Shallow d ts ↔ ∀ before after, ts = before ++ .leftBrace :: after →
      openAfter d before < maxNesting := by
  induction ts generalizing d with
  | nil => simp [Shallow]
  | cons t ts ih =>
    rw [shallow_cons, ih]
    constructor
    · intro h before after hts
      obtain ⟨hfirst, hrest⟩ := h
      cases before with
      | nil =>
        cases hts
        exact hfirst rfl
      | cons u before =>
        cases hts
        exact hrest before after rfl
    · intro h
      refine ⟨?_, ?_⟩
      · rintro rfl
        exact h [] ts rfl
      · rintro before after rfl
        exact h (t :: before) after rfl

/-- Behind a shallow sequence no more braces are open than the limit allows. -/
theorem Shallow.openAfter_le {d : Nat} {ts : List Token} (h : Shallow d ts) (hd : d ≤ maxNesting) :
    openAfter d ts ≤ maxNesting := by
  induction ts generalizing d with
  | nil => exact hd
  | cons t ts ih =>
    obtain ⟨hfirst, hrest⟩ := shallow_cons.1 h
    refine ih hrest ?_
    cases t with
    | leftBrace => exact hfirst rfl
    | rightBrace => exact Nat.le_trans (Nat.sub_le d 1) hd
    | _ => exact hd

/-- The check stops at the first opening brace before which the count has reached the limit. -/
theorem tooDeep?_eq_some {d offset : Nat} {ls : List Lexeme} (h : tooDeep? d ls = some offset) :
    ∃ before l after, ls = before ++ l :: after ∧ l.token = .leftBrace ∧ l.offset = offset ∧
      maxNesting ≤ openAfter d (before.map (·.token)) ∧ Shallow d (before.map (·.token)) := by
  induction ls generalizing d with
  | nil => cases h
  | cons l ls ih =>
    have hlater (h : tooDeep? (l.token.openAfter d) ls = some offset)
        (hl : l.token = .leftBrace → d < maxNesting) :
        ∃ before m after, l :: ls = before ++ m :: after ∧ m.token = .leftBrace ∧
          m.offset = offset ∧ maxNesting ≤ openAfter d (before.map (·.token)) ∧
          Shallow d (before.map (·.token)) := by
      obtain ⟨before, m, after, rfl, hm, ho, hcount, hs⟩ := ih h
      exact ⟨l :: before, m, after, rfl, hm, ho, hcount, shallow_cons.2 ⟨hl, hs⟩⟩
    obtain ⟨o, t⟩ := l
    cases t with
    | leftBrace =>
      rw [tooDeep?] at h
      dsimp only at h
      split at h
      · next hd =>
        cases h
        exact ⟨[], _, ls, rfl, rfl, rfl, hd, trivial⟩
      · next hd => exact hlater h fun _ => Nat.lt_of_not_le hd
    | _ => exact hlater h (by simp)

/-! ## The count behind a tree -/

/-- Tokens that leave as many braces open as there were before. -/
def Closes (ts : List Token) : Prop := ∀ d, openAfter d ts = d

theorem Closes.append {ts us : List Token} (hts : Closes ts) (hus : Closes us) :
    Closes (ts ++ us) := by
  intro d
  rw [openAfter_append, hts, hus]

theorem closes_mark {present : Bool} {t : Token} (h : Closes [t]) : Closes (mark present t) := by
  cases present with
  | false => exact fun _ => rfl
  | true => exact h

theorem closes_heading (h : Heading) : Closes h.tokens :=
  .append (.append (fun _ => rfl) (closes_mark fun _ => rfl)) fun _ => rfl

theorem Closes.property {p : Property} (h : Closes p.type.tokens) : Closes p.tokens := by
  rw [p.tokens_eq]
  exact ((closes_heading ⟨p.name, p.isOptional⟩).append h).append (closes_mark fun _ => rfl)

theorem closes_commaTokens {ps : List Property} (h : ∀ p ∈ ps, Closes p.tokens) :
    Closes (commaTokens ps) := by
  induction ps with
  | nil => exact fun _ => rfl
  | cons p ps ih =>
    obtain ⟨hp, hps⟩ := List.forall_mem_cons.1 h
    have hcomma : Closes (p.tokens ++ [.comma]) := hp.append fun _ => rfl
    exact hcomma.append (ih hps)

theorem closes_listTokens {ps : List Property} (h : ∀ p ∈ ps, Closes p.tokens) :
    Closes (Property.listTokens ps) := by
  rcases List.eq_nil_or_concat ps with rfl | ⟨qs, p, rfl⟩
  · exact fun _ => rfl
  · rw [List.concat_eq_append, List.forall_mem_append, List.forall_mem_singleton] at h
    rw [List.concat_eq_append, listTokens_snoc]
    exact (closes_commaTokens h.1).append h.2

theorem PropertyType.closes_tokens (t : PropertyType) : Closes t.tokens := by
  induction t using PropertyType.induction_on_objects with
  | primitive kind => exact fun _ => rfl
  | reference name => exact fun _ => rfl
  | object o ih =>
    have hps := closes_listTokens fun p hp => Closes.property (ih p hp)
    intro d
    have hsuffix : Closes (mark o.isArray .arraySuffix) := closes_mark fun _ => rfl
    simp [PropertyType.tokens, o.tokens_eq, hps (d + 1), hsuffix d, Token.openAfter]

theorem ObjectType.closes_tokens (o : ObjectType) : Closes o.tokens :=
  (PropertyType.object o).closes_tokens

theorem Heads.closes {name : String} {hs : List Token} (h : Heads name hs) : Closes hs := by
  cases h <;> exact fun _ => rfl

theorem TypeDecl.Yields.closes {decl : TypeDecl} {ts : List Token} (h : decl.Yields ts) :
    Closes ts := by
  cases h with
  | intro hh hb =>
    rw [ObjectType.yields_iff.1 hb]
    exact hh.closes.append decl.body.closes_tokens

/-! ## Where the objects of a tree open -/

/-- In the tokens of an object type, an object at a nesting level opens behind the given ones. The
    type itself is at level 1, and an object written for one of its properties one level below. -/
inductive ObjectType.Opens : ObjectType → List Token → Nat → Prop
  | self (o : ObjectType) : Opens o [] 1
  | inner {o i : ObjectType} {ps qs : List Property} {p : Property} {before : List Token}
      {level : Nat} (hp : o.properties = ps ++ p :: qs) (ht : p.type = .object i)
      (h : i.Opens before level) :
      Opens o ((⟨ps, ⟨p.name, p.isOptional⟩⟩ : Enclosing).tokens ++ before) (level + 1)

/-- The same in the tokens of a list of types. -/
inductive TypeDecl.ListOpens : List TypeDecl → List Token → List Token → Nat → Prop
  | here {decl : TypeDecl} {decls : List TypeDecl} {hs us before : List Token} {level : Nat}
      (hh : Heads decl.name hs) (hus : TypeDecl.YieldList decls us)
      (h : decl.body.Opens before level) :
      ListOpens (decl :: decls) (hs ++ decl.body.tokens ++ us) (hs ++ before) level
  | later {decl : TypeDecl} {decls : List TypeDecl} {ts us before : List Token} {level : Nat}
      (hts : decl.Yields ts) (h : ListOpens decls us before level) :
      ListOpens (decl :: decls) (ts ++ us) (ts ++ before) level

/-- In the tokens `ts` of a type set, an object at a nesting level opens behind `before`. -/
def TypeSet.Opens (T : TypeSet) (ts before : List Token) (level : Nat) : Prop :=
  TypeDecl.ListOpens T.types ts before level

/-- One property of a list stands behind the others before it, with a comma behind each. -/
theorem exists_listTokens (ps qs : List Property) (p : Property) :
    ∃ rest, Property.listTokens (ps ++ p :: qs) = commaTokens ps ++ (p.tokens ++ rest) := by
  induction ps with
  | nil =>
    cases qs with
    | nil => exact ⟨[], by simp [Property.listTokens, commaTokens]⟩
    | cons q qs =>
      rw [List.nil_append, Property.listTokens_cons_cons, List.append_assoc]
      exact ⟨_, rfl⟩
  | cons r ps ih =>
    obtain ⟨rest, hrest⟩ := ih
    refine ⟨rest, ?_⟩
    have hcons : Property.listTokens (r :: (ps ++ p :: qs)) =
        r.tokens ++ [.comma] ++ Property.listTokens (ps ++ p :: qs) := by
      cases ps <;> rfl
    rw [List.cons_append, hcons, hrest]
    simp [commaTokens]

theorem Enclosing.exists_tokens {o : ObjectType} {ps qs : List Property} {p : Property}
    (hp : o.properties = ps ++ p :: qs) :
    ∃ rest, o.tokens =
      (⟨ps, ⟨p.name, p.isOptional⟩⟩ : Enclosing).tokens ++ (p.type.tokens ++ rest) := by
  obtain ⟨rest, hrest⟩ := exists_listTokens ps qs p
  refine ⟨mark p.isArray .arraySuffix ++
    (rest ++ ([.rightBrace] ++ mark o.isArray .arraySuffix)), ?_⟩
  rw [o.tokens_eq, hp, hrest, p.tokens_eq]
  simp only [Enclosing.tokens, Heading.tokens, List.append_assoc]

theorem Enclosing.openAfter_tokens (e : Enclosing) (d : Nat) : openAfter d e.tokens = d + 1 := by
  have hps : Closes (commaTokens e.properties) :=
    closes_commaTokens fun p _ => .property p.type.closes_tokens
  have hh := closes_heading e.heading
  simp [Enclosing.tokens, hps (d + 1), hh (d + 1), Token.openAfter]

/-- Where an object opens there is a brace, and the count there is its level. -/
theorem ObjectType.Opens.count {o : ObjectType} {before : List Token} {level : Nat}
    (h : o.Opens before level) :
    (∃ after, o.tokens = before ++ .leftBrace :: after) ∧
      ∀ d, openAfter d before + 1 = d + level := by
  induction h with
  | self o => exact ⟨⟨_, by rw [o.tokens_eq]; rfl⟩, fun _ => rfl⟩
  | inner hp ht _ ih =>
    obtain ⟨⟨after, hafter⟩, hcount⟩ := ih
    obtain ⟨rest, hrest⟩ := Enclosing.exists_tokens hp
    rw [ht, PropertyType.tokens, hafter] at hrest
    refine ⟨⟨after ++ rest, by simpa using hrest⟩, ?_⟩
    intro d
    rw [openAfter_append, Enclosing.openAfter_tokens, hcount]
    omega

/-! ## Every brace opens an object -/

section
variable {t : Token} {ts us before after : List Token}

/-- A token of two sequences put together is one of the first or one of the second. -/
theorem split_append (h : ts ++ us = before ++ t :: after) :
    (∃ mid, ts = before ++ t :: mid) ∨ ∃ mid, before = ts ++ mid ∧ us = mid ++ t :: after := by
  rcases List.append_eq_append_iff.1 h with ⟨mid, rfl, hus⟩ | ⟨mid, rfl, hmid⟩
  · exact .inr ⟨mid, rfl, hus⟩
  · cases mid with
    | nil => exact .inr ⟨[], by simp, hmid.symm⟩
    | cons u mid =>
      cases hmid
      exact .inl ⟨mid, rfl⟩

theorem split_right (h : ts ++ us = before ++ t :: after) (ht : t ∉ ts) :
    ∃ mid, before = ts ++ mid ∧ us = mid ++ t :: after := by
  rcases split_append h with ⟨mid, rfl⟩ | hright
  · exact absurd (by simp) ht
  · exact hright

theorem split_left (h : ts ++ us = before ++ t :: after) (ht : t ∉ us) :
    ∃ mid, ts = before ++ t :: mid := by
  rcases split_append h with hleft | ⟨mid, -, rfl⟩
  · exact hleft
  · exact absurd (by simp) ht

end

theorem leftBrace_not_mem_heading (h : Heading) : .leftBrace ∉ h.tokens := by
  obtain ⟨name, isOptional⟩ := h
  cases isOptional <;> simp [Heading.tokens]

theorem leftBrace_not_mem_suffix (present : Bool) :
    .leftBrace ∉ mark present .arraySuffix := by
  cases present <;> simp

/-- A brace among the tokens of a property is one of its type. -/
theorem Property.exists_brace {p : Property} {before after : List Token}
    (h : p.tokens = before ++ .leftBrace :: after) :
    ∃ mid after', before = (⟨p.name, p.isOptional⟩ : Heading).tokens ++ mid ∧
      p.type.tokens = mid ++ .leftBrace :: after' := by
  have htokens : p.tokens = (⟨p.name, p.isOptional⟩ : Heading).tokens ++
      (p.type.tokens ++ mark p.isArray .arraySuffix) := by
    rw [p.tokens_eq, Heading.tokens, List.append_assoc]
  rw [htokens] at h
  obtain ⟨mid, hbefore, htype⟩ := split_right h (leftBrace_not_mem_heading _)
  obtain ⟨after', hafter⟩ := split_left htype (leftBrace_not_mem_suffix _)
  exact ⟨mid, after', hbefore, hafter⟩

/-- A brace among the tokens of some properties is one of the type of one of them. -/
theorem Property.exists_brace_list {ps : List Property} {before after : List Token}
    (h : listTokens ps = before ++ .leftBrace :: after) :
    ∃ qs p rs mid after', ps = qs ++ p :: rs ∧
      before = commaTokens qs ++ ((⟨p.name, p.isOptional⟩ : Heading).tokens ++ mid) ∧
      p.type.tokens = mid ++ .leftBrace :: after' := by
  induction ps generalizing before with
  | nil => simp [listTokens] at h
  | cons p ps ih =>
    have hfirst {after : List Token} (h : p.tokens = before ++ .leftBrace :: after) :
        ∃ qs q rs mid after', p :: ps = qs ++ q :: rs ∧
          before = commaTokens qs ++ ((⟨q.name, q.isOptional⟩ : Heading).tokens ++ mid) ∧
          q.type.tokens = mid ++ .leftBrace :: after' := by
      obtain ⟨mid, after', hbefore, htype⟩ := Property.exists_brace h
      exact ⟨[], p, ps, mid, after', rfl, hbefore, htype⟩
    cases ps with
    | nil => exact hfirst h
    | cons q ps =>
      rw [listTokens_cons_cons] at h
      rcases split_append h with ⟨mid, hmid⟩ | ⟨mid, rfl, hrest⟩
      · obtain ⟨after', hp⟩ := split_left hmid (by simp)
        exact hfirst hp
      · obtain ⟨qs, r, rs, mid, after', hps, rfl, htype⟩ := ih hrest
        refine ⟨p :: qs, r, rs, mid, after', by rw [hps]; rfl, ?_, htype⟩
        simp [commaTokens]

theorem PropertyType.exists_opens (t : PropertyType) {before after : List Token}
    (h : t.tokens = before ++ .leftBrace :: after) :
    ∃ o level, t = .object o ∧ o.Opens before level := by
  induction t using PropertyType.induction_on_objects generalizing before after with
  | primitive kind | reference name =>
    have hmem : Token.leftBrace ∈ before ++ .leftBrace :: after := by simp
    rw [← h] at hmem
    exact absurd hmem (by simp [PropertyType.tokens])
  | object o ih =>
    refine ⟨o, ?_⟩
    rw [PropertyType.tokens, o.tokens_eq, List.append_assoc, List.append_assoc] at h
    cases before with
    | nil => exact ⟨1, rfl, .self o⟩
    | cons u before =>
      obtain ⟨rfl, hin⟩ := List.cons_eq_cons.1 h
      have hin : Property.listTokens o.properties ++
          ([.rightBrace] ++ mark o.isArray .arraySuffix) = before ++ .leftBrace :: after := hin
      obtain ⟨after', hps⟩ := split_left hin (by simp [leftBrace_not_mem_suffix])
      obtain ⟨qs, p, rs, mid, after'', hp, rfl, htype⟩ := Property.exists_brace_list hps
      obtain ⟨i, level, hi, hopens⟩ := ih p (by simp [hp]) htype
      refine ⟨level + 1, rfl, ?_⟩
      have := hopens.inner hp hi
      simpa [Enclosing.tokens] using this

theorem ObjectType.exists_opens {o : ObjectType} {before after : List Token}
    (h : o.tokens = before ++ .leftBrace :: after) : ∃ level, o.Opens before level := by
  obtain ⟨i, level, hi, hopens⟩ := (PropertyType.object o).exists_opens h
  cases hi
  exact ⟨level, hopens⟩

/-- The heading of a type opens no object. -/
theorem Heads.not_mem_leftBrace {name : String} {hs : List Token} (h : Heads name hs) :
    .leftBrace ∉ hs := by
  cases h <;> simp

/-! ## The count in the tokens of a type set -/

theorem TypeDecl.ListOpens.count {decls : List TypeDecl} {ts before : List Token} {level : Nat}
    (h : TypeDecl.ListOpens decls ts before level) :
    (∃ after, ts = before ++ .leftBrace :: after) ∧ openAfter 0 before + 1 = level := by
  induction h with
  | @here _ _ _ us _ _ hh _ h =>
    obtain ⟨⟨after, hafter⟩, hcount⟩ := h.count
    refine ⟨⟨after ++ us, by simp [hafter]⟩, ?_⟩
    rw [openAfter_append, hh.closes, hcount, Nat.zero_add]
  | later hts _ ih =>
    obtain ⟨⟨after, rfl⟩, hcount⟩ := ih
    refine ⟨⟨after, by simp⟩, ?_⟩
    rw [openAfter_append, hts.closes, hcount]

theorem TypeDecl.YieldList.exists_opens {decls : List TypeDecl} {ts before after : List Token}
    (h : TypeDecl.YieldList decls ts) (hb : ts = before ++ .leftBrace :: after) :
    ∃ level, TypeDecl.ListOpens decls ts before level := by
  induction h generalizing before with
  | nil => simp at hb
  | cons hd hl ih =>
    rcases split_append hb with ⟨mid, hmid⟩ | ⟨mid, rfl, hrest⟩
    · cases hd with
      | intro hh hbody =>
        obtain ⟨mid', rfl, hin⟩ := split_right hmid hh.not_mem_leftBrace
        rw [ObjectType.yields_iff.1 hbody] at hin ⊢
        obtain ⟨level, hopens⟩ := ObjectType.exists_opens hin
        exact ⟨level, .here hh hl hopens⟩
    · obtain ⟨level, hopens⟩ := ih hrest
      exact ⟨level, .later hd hopens⟩

/-- **Objects open where there are braces, at the level that the count says.** -/
theorem TypeSet.opens_iff {T : TypeSet} {ts before : List Token} {level : Nat} (hT : T.Yields ts) :
    T.Opens ts before level ↔
      (∃ after, ts = before ++ .leftBrace :: after) ∧ openAfter 0 before + 1 = level := by
  constructor
  · intro h
    exact h.count
  · intro h
    obtain ⟨⟨after, hafter⟩, rfl⟩ := h
    obtain ⟨level, hopens⟩ := hT.2.exists_opens hafter
    rw [hopens.count.2]
    exact hopens

/-! ## The objects that are open while reading -/

namespace Draft

/-- The number of objects that are being read: those whose brace has been opened and that have not
    been put where they belong. An object whose brace has been closed is still one of them. -/
def openObjects (d : Draft) : Nat :=
  match d.stage with
  | .inside _ outer _ _ => outer.length + 1
  | _ => 0

/-- Reads one token, as a reader does that gives up where a brace would open an object and `limit`
    objects are being read already. What it does when it gives up is a parameter. -/
def stepWithin (limit : Nat) (giveUp : Draft → Except Fault Draft) (d : Draft) (t : Token) :
    Except Fault Draft :=
  if t = .leftBrace ∧ limit ≤ d.closed.openObjects then giveUp d else d.step t

/-- Reads all tokens as such a reader does. -/
def runWithin (limit : Nat) (giveUp : Draft → Except Fault Draft) (d : Draft) :
    List Token → Except (Fault × Nat) TypeSet
  | [] => d.finish.mapError (·, 0)
  | t :: ts =>
    match d.stepWithin limit giveUp t with
    | .ok next => next.runWithin limit giveUp ts
    | .error fault => .error (fault, ts.length + 1)

section
variable {d e : Draft} {t : Token} {ts : List Token}

theorem openObjects_closed_le : d.closed.openObjects ≤ d.openObjects := by
  obtain ⟨types, stage⟩ := d
  dsimp only [closed]
  split
  · next n outer ps isArray =>
    cases outer with
    | nil => exact Nat.zero_le _
    | cons o outer => exact Nat.le_succ _
  · exact Nat.le_refl _

theorem closed_closed (d : Draft) : d.closed.closed = d.closed := by
  obtain ⟨types, stage⟩ := d
  cases stage with
  | inside n outer ps place =>
    cases place with
    | afterBrace isArray => cases outer <;> rfl
    | _ => rfl
  | _ => rfl

/-- A move counts its token, and it adds an object only by counting one more. -/
theorem openObjects_advance? (h : d.advance? t = some e) :
    e.closed.openObjects = t.openAfter d.closed.openObjects ∧
      e.openObjects ≤ max d.openObjects e.closed.openObjects := by
  obtain ⟨types, stage⟩ := d
  obtain ⟨types', stage'⟩ := e
  obtain ⟨-, hadv⟩ := advance?_eq_some_iff.1 h
  cases hadv with
  | @inside n outer outer' ps ps' place place' t hm =>
    cases hm <;> cases outer <;> simp [closed, openObjects, Token.openAfter]
  | _ => simp [closed, openObjects, Token.openAfter]

theorem openObjects_scan (h : d.scan t = some e) :
    e.closed.openObjects = t.openAfter d.closed.openObjects ∧
      e.openObjects ≤ max d.openObjects e.closed.openObjects := by
  cases ha : d.advance? t with
  | some next =>
    rw [scan_of_advance? ha, Option.some.injEq] at h
    subst h
    exact openObjects_advance? ha
  | none =>
    rw [scan_of_closed ha] at h
    obtain ⟨hcount, hle⟩ := openObjects_advance? h
    rw [closed_closed] at hcount
    have := openObjects_closed_le (d := d)
    exact ⟨hcount, by omega⟩

/-- A draft is within the limit, and what is still to come stays shallow on top of it. -/
structure Within (d : Draft) (ts : List Token) : Prop where
  objects : d.openObjects ≤ maxNesting
  shallow : Shallow d.closed.openObjects ts

theorem Within.scan (h : d.Within (t :: ts)) (hs : d.scan t = some e) : e.Within ts := by
  obtain ⟨hobjects, hshallow⟩ := h
  obtain ⟨hcount, hle⟩ := openObjects_scan hs
  obtain ⟨hfirst, hrest⟩ := shallow_cons.1 hshallow
  rw [← hcount] at hrest
  refine ⟨?_, hrest⟩
  have hclosed := openObjects_closed_le (d := d)
  -- Only an opening brace counts up, and the limit was not reached before it.
  have hup : e.closed.openObjects ≤ maxNesting := by
    rw [hcount]
    cases t with
    | leftBrace => exact hfirst rfl
    | rightBrace => exact Nat.le_trans (Nat.sub_le _ 1) (Nat.le_trans hclosed hobjects)
    | _ => exact Nat.le_trans hclosed hobjects
  omega

theorem within_empty (h : Shallow 0 ts) : Draft.empty.Within ts := ⟨Nat.zero_le _, h⟩

/-- **Every draft that is reached is within the limit.** -/
theorem Within.steps {us : List Token} (h : d.Within (us ++ ts)) (hs : us.foldlM step d = .ok e) :
    e.Within ts := by
  induction us generalizing d with
  | nil =>
    cases hs
    exact h
  | cons u us ih =>
    rw [List.foldlM_cons] at hs
    obtain ⟨f, hf, hs⟩ := bind_eq_ok_iff.1 hs
    exact ih (h.scan (step_eq_ok_iff.1 hf).1) hs

/-- Within the limit, a reader that keeps to it does what any reader does. -/
theorem Within.stepWithin (h : d.Within (t :: ts)) (giveUp : Draft → Except Fault Draft) :
    d.stepWithin maxNesting giveUp t = d.step t := by
  refine if_neg ?_
  intro hgive
  have hlt := (shallow_cons.1 h.shallow).1 hgive.1
  omega

theorem Within.runWithin (h : d.Within ts) (giveUp : Draft → Except Fault Draft) :
    d.runWithin maxNesting giveUp ts = d.run ts := by
  induction ts generalizing d with
  | nil => rfl
  | cons t ts ih =>
    rw [Draft.runWithin, run, h.stepWithin giveUp]
    cases hs : d.step t with
    | error f => rfl
    | ok e => exact ih (h.scan (step_eq_ok_iff.1 hs).1)

end

end Draft

/-! ## The check -/

/-- A text that can be cut is refused for its nesting exactly if the check of the count stops. -/
theorem TypeSet.ofText_eq_tooDeep_iff {text : String} {ls : List Lexeme} {position : Text.Position}
    (hls : lexemes text.toList 0 = .ok ls) :
    TypeSet.ofText text = .error ⟨.tooDeep, position⟩ ↔
      ∃ offset, tooDeep? 0 ls = some offset ∧ position = .atOffset text.toList offset := by
  unfold TypeSet.ofText
  simp only [hls]
  cases hd : tooDeep? 0 ls with
  | some offset => simp [eq_comm]
  | none =>
    refine iff_of_false ?_ (by simp)
    intro h
    obtain ⟨⟨f, unread⟩, hf, he⟩ := mapError_eq_error_iff.1 h
    cases he
    exact Draft.run_fault_ofTokens hf

section
variable {T : TypeSet} {ls : List Lexeme} (hT : T.Yields (ls.map (·.token)))
include hT

/-- The check stops exactly if some object stands too deep. -/
theorem TypeSet.exists_tooDeep_iff :
    (∃ offset, tooDeep? 0 ls = some offset) ↔
      ∃ before level, T.Opens (ls.map (·.token)) before level ∧ maxNesting < level := by
  rw [← Option.ne_none_iff_exists', ne_eq, tooDeep?_eq_none_iff, shallow_iff]
  simp only [TypeSet.opens_iff hT]
  constructor
  · intro h
    simp only [not_forall, Nat.not_lt] at h
    obtain ⟨before, after, hts, hcount⟩ := h
    exact ⟨before, _, ⟨⟨after, hts⟩, rfl⟩, Nat.lt_succ_of_le hcount⟩
  · intro h hall
    obtain ⟨before, level, ⟨⟨after, hts⟩, rfl⟩, hlt⟩ := h
    have := hall before after hts
    omega

/-- It stops at the brace of the first object that stands one level too deep. -/
theorem TypeSet.Yields.tooDeep {offset : Nat} (h : tooDeep? 0 ls = some offset) :
    ∃ before l after, ls = before ++ l :: after ∧ l.token = .leftBrace ∧ l.offset = offset ∧
      T.Opens (ls.map (·.token)) (before.map (·.token)) (maxNesting + 1) ∧
      ∀ other, T.Opens (ls.map (·.token)) other (maxNesting + 1) → before.length ≤ other.length := by
  obtain ⟨before, l, after, rfl, hl, ho, hcount, hshallow⟩ := tooDeep?_eq_some h
  have hmax := Nat.le_antisymm (hshallow.openAfter_le (Nat.zero_le _)) hcount
  have hts : (before ++ l :: after).map (·.token) =
      before.map (·.token) ++ .leftBrace :: after.map (·.token) := by
    rw [List.map_append, List.map_cons, hl]
  refine ⟨before, l, after, rfl, hl, ho, ?_, ?_⟩
  · rw [TypeSet.opens_iff hT, hmax]
    exact ⟨⟨_, hts⟩, rfl⟩
  · intro other hother
    obtain ⟨⟨rest, hrest⟩, hlevel⟩ := (TypeSet.opens_iff hT).1 hother
    by_contra hlt
    -- A brace further in front would have stopped the check.
    rw [hrest] at hts
    rcases split_append hts.symm with ⟨mid, hmid⟩ | ⟨mid, rfl, -⟩
    · have := shallow_iff.1 hshallow other mid hmid
      omega
    · simp at hlt

end

/-- **The limit on nesting is exact, and it bounds the reading.** A text that follows the grammar is
    refused for its nesting exactly if an object of its tree is nested too deep, and then at the brace
    of the first such object. And where the check passes, the text following the grammar or not,
    there are never more objects being read than the limit allows, so that a reader that gives up
    beyond it finds the same. -/
theorem TypeSet.nesting_limit :
    (∀ (text : String) (ls : List Lexeme) (T : TypeSet), lexemes text.toList 0 = .ok ls →
      T.Yields (ls.map (·.token)) →
      ((∃ position, TypeSet.ofText text = .error ⟨.tooDeep, position⟩) ↔
        ∃ before level, T.Opens (ls.map (·.token)) before level ∧ maxNesting < level) ∧
      ∀ position, TypeSet.ofText text = .error ⟨.tooDeep, position⟩ →
        ∃ before l after, ls = before ++ l :: after ∧ l.token = .leftBrace ∧
          T.Opens (ls.map (·.token)) (before.map (·.token)) (maxNesting + 1) ∧
          (∀ other, T.Opens (ls.map (·.token)) other (maxNesting + 1) →
            before.length ≤ other.length) ∧
          Text.Locates (text.toList.take l.offset) position) ∧
    ∀ ls : List Lexeme, tooDeep? 0 ls = none →
      (∀ us vs d, us ++ vs = ls.map (·.token) → us.foldlM Draft.step Draft.empty = .ok d →
        d.openObjects ≤ maxNesting) ∧
      ∀ giveUp, Draft.empty.runWithin maxNesting giveUp (ls.map (·.token)) =
        TypeSet.ofTokens (ls.map (·.token)) := by
  refine ⟨?_, ?_⟩
  · intro text ls T hls hT
    refine ⟨?_, ?_⟩
    · rw [← TypeSet.exists_tooDeep_iff hT]
      simp only [TypeSet.ofText_eq_tooDeep_iff hls]
      rw [exists_comm]
      simp
    · intro position h
      obtain ⟨offset, hoffset, rfl⟩ := (TypeSet.ofText_eq_tooDeep_iff hls).1 h
      obtain ⟨before, l, after, rfl, hl, rfl, hopens, hfirst⟩ := hT.tooDeep hoffset
      exact ⟨before, l, after, rfl, hl, hopens, hfirst, Text.locates_after _⟩
  · intro ls hls
    have hshallow := tooDeep?_eq_none_iff.1 hls
    refine ⟨?_, (Draft.within_empty hshallow).runWithin⟩
    intro us vs d hts hs
    rw [← hts] at hshallow
    exact ((Draft.within_empty hshallow).steps hs).objects

end TypedFlags.Schema
