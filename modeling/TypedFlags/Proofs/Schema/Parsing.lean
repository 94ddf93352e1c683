import Mathlib.Logic.ExistsUnique
import TypedFlags.Proofs.Schema.Spelling
/-!
# Reading accepts what the grammar yields

`TypedFlags.Proofs.Schema.Spelling` shows that a scan reads a sequence of the grammar. Here is the
other half: every object-first derivation is scanned to its tree (`TypeSet.Yields.scans`), by
induction on the tree. The two meet in `TypeSet.yields_iff_scans`, and with the judgements of
`TypedFlags.Proofs.Schema.Scan` they say exactly which token sequences are type sets
(`TypeSet.ofTokens_eq_ok_iff`).

That a scan is a function also settles the ambiguity of the grammar: no two object-first trees yield
the same tokens.
-/

set_option autoImplicit false

namespace TypedFlags.Schema

/-! ## Types and properties -/

namespace Draft

theorem scans_append {d e f : Draft} {ts us : List Token} (h : ts.foldlM scan d = some e)
    (h' : us.foldlM scan e = some f) : (ts ++ us).foldlM scan d = some f := by
  rw [List.foldlM_append, h]
  exact h'

theorem scans_singleton {d e : Draft} {t : Token} (h : d.scan t = some e) :
    [t].foldlM scan d = some e := by
  rw [List.foldlM_cons, h]
  rfl

/-- The draft behind the type of a property. An object type is still to be settled. -/
def behindType (types : List TypeDecl) (n : String) (outer : List Enclosing) (ps : List Property)
    (h : Heading) : PropertyType → Draft
  | .object ⟨qs, isArray⟩ => ⟨types, .inside n (⟨ps, h⟩ :: outer) qs (.afterBrace isArray)⟩
  | t => ⟨types, .inside n outer ps (.afterType (h.property t))⟩

section
variable {types : List TypeDecl} {n : String} {outer : List Enclosing} {ps : List Property}
  {h : Heading} {t : PropertyType}

theorem behindType_comma : (behindType types n outer ps h t).scan .comma =
    some ⟨types, .inside n outer (ps ++ [h.property t]) .afterComma⟩ := by
  cases t with
  | primitive k => rfl
  | reference r => rfl
  | object o =>
    obtain ⟨qs, isArray⟩ := o
    cases isArray <;> rfl

theorem behindType_rightBrace : (behindType types n outer ps h t).scan .rightBrace =
    some ⟨types, .inside n outer (ps ++ [h.property t]) (.afterBrace false)⟩ := by
  cases t with
  | primitive k => rfl
  | reference r => rfl
  | object o =>
    obtain ⟨qs, isArray⟩ := o
    cases isArray <;> rfl

/-- Behind an object type without a suffix, a suffix would not be the property's. -/
theorem behindType_arraySuffix (hs : ∀ o, t = .object o → o.isArray = true) :
    (behindType types n outer ps h t).scan .arraySuffix =
      some ⟨types, .inside n outer (ps ++ [{ h.property t with isArray := true }])
        .afterProperty⟩ := by
  cases t with
  | primitive k => rfl
  | reference r => rfl
  | object o =>
    obtain ⟨qs, isArray⟩ := o
    have ha : isArray = true := hs _ rfl
    subst ha
    rfl

end

/-- The places at which a property may start. -/
inductive StartsProperty : Place → Prop
  | start : StartsProperty .start
  | afterComma : StartsProperty .afterComma

section
variable (types : List TypeDecl) (n : String) (outer : List Enclosing) (ps : List Property)

theorem scans_heading {place : Place} (hp : StartsProperty place) (h : Heading) :
    h.tokens.foldlM scan ⟨types, .inside n outer ps place⟩ =
      some ⟨types, .inside n outer ps (.afterColon h)⟩ := by
  obtain ⟨name, isOptional⟩ := h
  cases hp <;> cases isOptional <;> rfl

/-- The types of properties that are scanned as they stand. -/
def ScansType (t : PropertyType) : Prop :=
  ∀ (types : List TypeDecl) (n : String) (outer : List Enclosing) (ps : List Property)
    (h : Heading), t.tokens.foldlM scan ⟨types, .inside n outer ps (.afterColon h)⟩ =
      some (behindType types n outer ps h t)

theorem scans_property {place : Place} {p : Property} (hp : StartsProperty place)
    (hof : p.ObjectFirst) (ht : ScansType p.type) :
    ∃ d, p.tokens.foldlM scan ⟨types, .inside n outer ps place⟩ = some d ∧
      d.scan .comma = some ⟨types, .inside n outer (ps ++ [p]) .afterComma⟩ ∧
      d.scan .rightBrace = some ⟨types, .inside n outer (ps ++ [p]) (.afterBrace false)⟩ := by
  obtain ⟨name, isOptional, isArray, type⟩ := p
  have hh := scans_append (scans_heading types n outer ps hp ⟨name, isOptional⟩)
    (ht types n outer ps _)
  cases isArray with
  | false =>
    refine ⟨behindType types n outer ps ⟨name, isOptional⟩ type, ?_, behindType_comma,
      behindType_rightBrace⟩
    rw [Property.tokens, mark_false, List.append_nil]
    exact hh
  | true =>
    have hs := scans_append hh (scans_singleton (behindType_arraySuffix (hof rfl)))
    exact ⟨_, hs, rfl, rfl⟩

/-- The properties of an object, from behind its brace or a comma on, and the closing brace. -/
theorem scans_list {qs : List Property} {place : Place} (hp : StartsProperty place) (hne : qs ≠ [])
    (hof : ∀ q ∈ qs, q.ObjectFirst) (ht : ∀ q ∈ qs, ScansType q.type) :
    (Property.listTokens qs ++ [Token.rightBrace]).foldlM scan
        ⟨types, .inside n outer ps place⟩ =
      some ⟨types, .inside n outer (ps ++ qs) (.afterBrace false)⟩ := by
  -- What has been read of the list is complete in the draft, so `ps` grows as `qs` gets shorter.
  induction qs generalizing ps place with
  | nil => exact absurd rfl hne
  | cons q qs ih =>
    obtain ⟨d, hd, hcomma, hclose⟩ :=
      scans_property types n outer ps hp (hof q (by simp)) (ht q (by simp))
    cases qs with
    | nil => exact scans_append hd (scans_singleton hclose)
    | cons q' qs =>
      have hfirst := scans_append hd (scans_singleton hcomma)
      have hrest := ih (ps ++ [q]) .afterComma (by simp) (fun r hr => hof r (by simp [hr]))
        (fun r hr => ht r (by simp [hr]))
      have := scans_append hfirst hrest
      simpa [Property.listTokens] using this

theorem scans_object {o : ObjectType} (hof : o.ObjectFirst)
    (ht : ∀ q ∈ o.properties, ScansType q.type) :
    (Property.listTokens o.properties ++ [Token.rightBrace] ++
        mark o.isArray .arraySuffix).foldlM scan ⟨types, .inside n outer [] .start⟩ =
      some ⟨types, .inside n outer o.properties (.afterBrace o.isArray)⟩ := by
  obtain ⟨ps, isArray⟩ := o
  have hps : (Property.listTokens ps ++ [Token.rightBrace]).foldlM scan
      ⟨types, .inside n outer [] .start⟩ =
      some ⟨types, .inside n outer ps (.afterBrace false)⟩ := by
    by_cases hne : ps = []
    · subst hne; rfl
    · exact scans_list types n outer [] .start hne hof ht
  refine scans_append hps ?_
  cases isArray <;> rfl

end

/-- **An object-first type is scanned as it stands.** -/
theorem scansType (t : PropertyType) (hof : t.Throughout ObjectType.ObjectFirst) :
    ScansType t := by
  induction t using PropertyType.induction_on_objects with
  | primitive kind => intro types n outer ps h; rfl
  | reference name => intro types n outer ps h; rfl
  | object o ih =>
    obtain ⟨qs, isArray⟩ := o
    rw [PropertyType.throughout_object, ObjectType.throughout_iff] at hof
    intro types n outer ps h
    have hopen : [Token.leftBrace].foldlM scan ⟨types, .inside n outer ps (.afterColon h)⟩ =
        some ⟨types, .inside n (⟨ps, h⟩ :: outer) [] .start⟩ := rfl
    have hbody := scans_object types n (⟨ps, h⟩ :: outer) hof.1 fun q hq => ih q hq (hof.2 q hq)
    have := scans_append hopen hbody
    rw [PropertyType.tokens, ObjectType.tokens, behindType]
    simpa using this

/-! ## Types of a set -/

/-- A draft at which the given types are complete and a next one may start. -/
structure Ready (d : Draft) (types : List TypeDecl) : Prop where
  closed : d.closed = ⟨types, .between⟩
  scan : ∀ {t : Token}, t ≠ .arraySuffix → d.scan t = (⟨types, .between⟩ : Draft).advance? t

theorem ready_between (types : List TypeDecl) : Ready ⟨types, .between⟩ types where
  closed := rfl
  scan := by
    intro t _
    cases h : (⟨types, .between⟩ : Draft).advance? t with
    | some next => exact scan_of_advance? h
    | none => rw [scan_of_closed h]; exact h

theorem ready_body (types : List TypeDecl) (n : String) (body : ObjectType) :
    Ready ⟨types, .inside n [] body.properties (.afterBrace body.isArray)⟩
      (types ++ [⟨n, body⟩]) where
  closed := by cases body; rfl
  scan := by
    intro t ht
    obtain ⟨ps, isArray⟩ := body
    -- Behind a brace only a suffix is the object's own.
    have hn : (⟨types, .inside n [] ps (.afterBrace isArray)⟩ : Draft).advance? t = none := by
      rw [Option.eq_none_iff_forall_ne_some]
      intro d' h
      obtain ⟨-, hadv⟩ := advance?_eq_some_iff.1 h
      obtain ⟨types', stage'⟩ := d'
      cases hadv with
      | inside n hm => cases hm; exact ht rfl
    rw [scan_of_closed hn]
    rfl

theorem Ready.scans_decl {d : Draft} {types : List TypeDecl} {decl : TypeDecl} {ts : List Token}
    (hd : Ready d types) (h : decl.Yields ts)
    (hof : decl.body.Throughout ObjectType.ObjectFirst) :
    ∃ d', ts.foldlM Draft.scan d = some d' ∧ Ready d' (types ++ [decl]) := by
  cases h with
  | intro hh hb =>
    have hopen : ∀ {n : String} {hs : List Token}, Heads n hs →
        (hs ++ [Token.leftBrace]).foldlM Draft.scan d = some ⟨types, .inside n [] [] .start⟩ := by
      intro n hs hh
      cases hh with
      | unnamed => exact scans_singleton (hd.scan (by simp))
      | type n =>
        rw [List.cons_append, List.foldlM_cons, hd.scan Token.noConfusion]
        rfl
      | interface n =>
        rw [List.cons_append, List.foldlM_cons, hd.scan Token.noConfusion]
        rfl
    rw [ObjectType.throughout_iff] at hof
    have hbody := scans_object types decl.name [] hof.1
      fun q hq => scansType q.type (hof.2 q hq)
    refine ⟨_, ?_, ready_body types decl.name decl.body⟩
    have := scans_append (hopen hh) hbody
    rw [ObjectType.yields_iff.1 hb, decl.body.tokens_eq]
    simpa using this

theorem Ready.scans_list {d : Draft} {types decls : List TypeDecl} {ts : List Token}
    (hd : Ready d types) (h : TypeDecl.YieldList decls ts)
    (hof : ∀ decl ∈ decls, decl.body.Throughout ObjectType.ObjectFirst) :
    ∃ d', ts.foldlM Draft.scan d = some d' ∧ Ready d' (types ++ decls) := by
  induction h generalizing d types with
  | nil => exact ⟨d, rfl, by simpa using hd⟩
  | cons h _ ih =>
    obtain ⟨e, he, hre⟩ := hd.scans_decl h (hof _ (by simp))
    obtain ⟨d', hd', hrd'⟩ := ih hre fun decl hdecl => hof decl (by simp [hdecl])
    exact ⟨d', scans_append he hd', by simpa using hrd'⟩

end Draft

/-! ## The two halves together -/

/-- **The object-first derivations are the scans that end between types.** -/
theorem TypeSet.yields_iff_scans {T : TypeSet} {ts : List Token} :
    (T.Yields ts ∧ T.ObjectFirst) ↔
      T.types ≠ [] ∧ ∃ d, ts.foldlM Draft.scan Draft.empty = some d ∧
        d.closed = ⟨T.types, .between⟩ := by
  constructor
  · rintro ⟨⟨hne, hl⟩, hof⟩
    obtain ⟨d, hd, hr⟩ := (Draft.ready_between []).scans_list hl (TypeSet.objectFirst_iff.1 hof)
    exact ⟨hne, d, hd, hr.closed⟩
  · rintro ⟨hne, d, hd, hc⟩
    exact Draft.yields_of_scans hd hc hne

theorem TypeSet.eq_of_yields {T U : TypeSet} {ts : List Token} (hT : T.Yields ts)
    (hU : U.Yields ts) (hTo : T.ObjectFirst) (hUo : U.ObjectFirst) : T = U := by
  obtain ⟨-, d, hd, hc⟩ := TypeSet.yields_iff_scans.1 ⟨hT, hTo⟩
  obtain ⟨-, e, he, hce⟩ := TypeSet.yields_iff_scans.1 ⟨hU, hUo⟩
  rw [hd, Option.some.injEq] at he
  subst he
  rw [hc, Draft.mk.injEq] at hce
  cases T
  cases U
  exact congrArg TypeSet.mk hce.1

/-- Of two or more types exactly one is unnamed, and no two share a name. -/
def TypeSet.WellNamed (T : TypeSet) : Prop :=
  2 ≤ T.types.length →
    (T.types.filter (·.isMain)).length = 1 ∧ (T.types.map (·.name)).Nodup

/-- The names of a list with one unnamed type are distinct if those of the others are. -/
theorem nodup_names_iff {decls : List TypeDecl} (h : (decls.filter (·.isMain)).length = 1) :
    (decls.map (·.name)).Nodup ↔ ((decls.filter (!·.isMain)).map (·.name)).Nodup := by
  obtain ⟨main, hmain⟩ := List.length_eq_one_iff.1 h
  have hname : main.name = "" := by
    have : main ∈ decls.filter (·.isMain) := by rw [hmain]; exact List.mem_singleton_self main
    simpa [TypeDecl.isMain] using (List.mem_filter.1 this).2
  have hperm := (List.filter_append_perm (·.isMain) decls).map (·.name)
  rw [← hperm.nodup_iff, hmain, List.map_append, List.map_singleton, List.singleton_append,
    List.nodup_cons, hname, and_iff_right]
  intro hmem
  obtain ⟨decl, hdecl, hn⟩ := List.mem_map.1 hmem
  simp [TypeDecl.isMain, hn] at hdecl

theorem typeNamesFault?_eq_none_iff {T : TypeSet} :
    typeNamesFault? T.types = none ↔ T.WellNamed := by
  unfold typeNamesFault? TypeSet.WellNamed
  split
  · next h => exact ⟨fun _ hlt => absurd hlt (by omega), fun _ => rfl⟩
  · next h =>
    rw [imp_iff_right (by omega)]
    split
    · next hne => exact ⟨fun h => (by cases h), fun h => absurd h.1 hne⟩
    · next hone =>
      have hone := Decidable.not_not.1 hone
      rw [and_iff_right hone, nodup_names_iff hone]
      split
      · next hn => exact ⟨fun _ => hn, fun _ => rfl⟩
      · next hn => exact ⟨fun h => (by cases h), fun h => absurd h hn⟩

/-- The objects of a draft whose types are those of a set are the objects of the set. -/
theorem TypeSet.forall_hasObject_iff_throughout {T : TypeSet} {d : Draft} {Q : ObjectType → Prop}
    (hc : d.closed = ⟨T.types, .between⟩) :
    (∀ o, T.HasObject o → Q o) ↔ d.closed.Throughout Q := by
  rw [hc, TypeSet.forall_hasObject_iff]
  exact ⟨fun h => ⟨h, by simp [Stage.pending]⟩, fun h => h.1⟩

/-- A token sequence is read as a type set exactly if a scan of it ends with the types of the set,
    and their names pass. -/
theorem TypeSet.ofTokens_iff_scans {ts : List Token} {T : TypeSet} :
    TypeSet.ofTokens ts = .ok T ↔
      (T.types ≠ [] ∧ ∃ d, ts.foldlM Draft.scan Draft.empty = some d ∧
        d.closed = ⟨T.types, .between⟩) ∧
      (∀ o, T.HasObject o → o.Distinct) ∧ T.WellNamed := by
  have hall {d : Draft} (hc : d.closed = ⟨T.types, .between⟩) :
      (∀ o, T.HasObject o → o.Distinct) ↔
        d.Throughout ObjectType.Distinct ∧ ∀ o, d.closing? = some o → o.Distinct :=
    (TypeSet.forall_hasObject_iff_throughout hc).trans Draft.throughout_closed
  rw [TypeSet.ofTokens, Draft.run_eq_ok_iff, ← typeNamesFault?_eq_none_iff]
  constructor
  · rintro ⟨d, hs, hf⟩
    obtain ⟨hj, hc, hne, hn⟩ := Draft.finish_eq_ok_iff.1 hf
    obtain ⟨hscan, hd⟩ := Draft.steps_iff_scans.1 ⟨Draft.throughout_empty, hs⟩
    exact ⟨⟨hne, d, hscan, hc⟩, (hall hc).2 ⟨hd, hj⟩, hn⟩
  · rintro ⟨⟨hne, d, hscan, hc⟩, hd, hn⟩
    obtain ⟨hd, hj⟩ := (hall hc).1 hd
    obtain ⟨-, hs⟩ := Draft.steps_iff_scans.2 ⟨hscan, hd⟩
    exact ⟨d, hs, Draft.finish_eq_ok_iff.2 ⟨hj, hc, hne, hn⟩⟩

/-- **Reading is derivation.** A token sequence is read as a type set exactly if the set is the tree
    of its object-first derivation, no object at any depth repeats the name of a property, and the
    names of the types pass. Every derivable sequence has exactly one such derivation, so nothing is
    lost for being ambiguous. -/
theorem TypeSet.ofTokens_eq_ok_iff (ts : List Token) :
    (∀ T : TypeSet, TypeSet.ofTokens ts = .ok T ↔
      T.Yields ts ∧ T.ObjectFirst ∧ (∀ o, T.HasObject o → o.Distinct) ∧ T.WellNamed) ∧
    ((∃ T : TypeSet, T.Yields ts) ↔ ∃! T : TypeSet, T.Yields ts ∧ T.ObjectFirst) := by
  refine ⟨fun T => ?_, ?_, ?_⟩
  · rw [TypeSet.ofTokens_iff_scans, ← TypeSet.yields_iff_scans, and_assoc]
  · rintro ⟨T, hT⟩
    obtain ⟨U, hU, hof⟩ := hT.exists_objectFirst
    exact ⟨U, ⟨hU, hof⟩, fun V hV => TypeSet.eq_of_yields hV.1 hU hV.2 hof⟩
  · rintro ⟨T, hT, -⟩
    exact ⟨T, hT.1⟩

end TypedFlags.Schema
