import TypedFlags.Proofs.Except
import TypedFlags.Proofs.Schema.Tree
import TypedFlags.Schema.Draft
/-!
# Reading without judging

`Draft.step` does two things: it goes on by one token, and it judges an object when the token behind
it is seen. They are taken apart here. `Draft.scan` only goes on, `Draft.closed` puts a closed object
where it belongs without asking about its names, and `Draft.closing?` is the object that is judged
then. So a run is a scan in which every closed object passed:

* `Draft.steps_iff_scans`: the steps succeed exactly if the scan does and leaves a draft whose
  objects all have distinct names;
* `Draft.run_eq_ok_iff`: what a whole run gives, in terms of the last draft;
* `Draft.run_eq_error_iff` and `Draft.fails_iff`: where a run fails instead, and with which fault.

The table of `Draft.advance?` is stated once as a relation (`Stage.Advance`, and `Move` inside an
object), with a name for each move.
-/

set_option autoImplicit false

namespace TypedFlags.Schema

/-! ## The moves -/

/-- The moves inside an open object: from the place reached, by a token, to the open objects, the
    properties and the place behind it. -/
inductive Move (outer : List Enclosing) (ps : List Property) :
    Place → Token → List Enclosing → List Property → Place → Prop
  | firstName (n : String) : Move outer ps .start (.identifier n) outer ps (.afterName n)
  | closeEmpty : Move outer ps .start .rightBrace outer ps (.afterBrace false)
  | nextName (n : String) : Move outer ps .afterComma (.identifier n) outer ps (.afterName n)
  | question (n : String) : Move outer ps (.afterName n) .question outer ps (.afterQuestion n)
  | colon (n : String) : Move outer ps (.afterName n) .colon outer ps (.afterColon ⟨n, false⟩)
  | optionalColon (n : String) :
      Move outer ps (.afterQuestion n) .colon outer ps (.afterColon ⟨n, true⟩)
  | primitive (h : Heading) (k : Primitive) :
      Move outer ps (.afterColon h) (.primitive k) outer ps (.afterType (h.property (.primitive k)))
  | reference (h : Heading) (r : String) :
      Move outer ps (.afterColon h) (.identifier r) outer ps
        (.afterType (h.property (.reference r)))
  | openObject (h : Heading) :
      Move outer ps (.afterColon h) .leftBrace (⟨ps, h⟩ :: outer) [] .start
  | suffix (p : Property) :
      Move outer ps (.afterType p) .arraySuffix outer (ps ++ [{ p with isArray := true }])
        .afterProperty
  | comma (p : Property) :
      Move outer ps (.afterType p) .comma outer (ps ++ [p]) .afterComma
  | close (p : Property) :
      Move outer ps (.afterType p) .rightBrace outer (ps ++ [p]) (.afterBrace false)
  | commaAfterSuffix : Move outer ps .afterProperty .comma outer ps .afterComma
  | closeAfterSuffix : Move outer ps .afterProperty .rightBrace outer ps (.afterBrace false)
  | objectSuffix : Move outer ps (.afterBrace false) .arraySuffix outer ps (.afterBrace true)

/-- The moves of a draft, which leave its complete types alone. -/
inductive Stage.Advance : Stage → Token → Stage → Prop
  | typeKeyword : Advance .between .typeKeyword .afterType
  | interfaceKeyword : Advance .between .interfaceKeyword .afterInterface
  | unnamed : Advance .between .leftBrace (.inside "" [] [] .start)
  | typeName (n : String) : Advance .afterType (.identifier n) (.afterTypeName n)
  | equals (n : String) : Advance (.afterTypeName n) .equals (.body n)
  | interfaceName (n : String) : Advance .afterInterface (.identifier n) (.body n)
  | body (n : String) : Advance (.body n) .leftBrace (.inside n [] [] .start)
  | inside (n : String) {outer outer' : List Enclosing} {ps ps' : List Property}
      {place place' : Place} {t : Token} (h : Move outer ps place t outer' ps' place') :
      Advance (.inside n outer ps place) t (.inside n outer' ps' place')

/-- **The moves are what `advance?` allows.** -/
theorem Draft.advance?_eq_some_iff {d d' : Draft} {t : Token} :
    d.advance? t = some d' ↔ d'.types = d.types ∧ d.stage.Advance t d'.stage := by
  obtain ⟨types, stage⟩ := d
  obtain ⟨types', stage'⟩ := d'
  constructor
  · intro h
    dsimp only [advance?] at h
    split at h
    -- The eighth stage is the inside of an object, where the place decides.
    case h_8 =>
      split at h <;> cases h <;> exact ⟨rfl, .inside _ (by constructor)⟩
    all_goals cases h
    all_goals exact ⟨rfl, by constructor⟩
  · rintro ⟨rfl, h⟩
    cases h with
    | inside n h => cases h <;> rfl
    | _ => rfl

namespace Draft

/-! ## Scanning -/

/-- The object whose brace has been closed and that is still to be judged. -/
def closing? (d : Draft) : Option ObjectType :=
  match d.stage with
  | .inside _ _ ps (.afterBrace isArray) => some ⟨ps, isArray⟩
  | _ => none

theorem closing?_eq_some_iff {d : Draft} {o : ObjectType} :
    d.closing? = some o ↔
      ∃ n outer, d.stage = .inside n outer o.properties (.afterBrace o.isArray) := by
  obtain ⟨types, stage⟩ := d
  obtain ⟨ps, isArray⟩ := o
  unfold closing?
  constructor
  · intro h
    split at h
    · next n outer ps isArray hst => cases h; exact ⟨n, outer, hst⟩
    · cases h
  · rintro ⟨n, outer, rfl⟩
    rfl

/-- The draft with an object whose brace has been closed put where it belongs. -/
def closed (d : Draft) : Draft :=
  match d.stage with
  | .inside n outer ps (.afterBrace isArray) =>
    match outer with
    | [] => ⟨d.types ++ [⟨n, ⟨ps, isArray⟩⟩], .between⟩
    | o :: outer =>
      { d with
        stage := .inside n outer o.properties
          (.afterType (o.heading.property (.object ⟨ps, isArray⟩))) }
  | _ => d

/-- Goes on by one token, judging nothing. -/
def scan (d : Draft) (t : Token) : Option Draft :=
  match d.advance? t with
  | some next => some next
  | none => d.closed.advance? t

theorem scan_of_advance? {d d' : Draft} {t : Token} (h : d.advance? t = some d') :
    d.scan t = some d' := by
  rw [scan, h]

theorem scan_of_closed {d : Draft} {t : Token} (h : d.advance? t = none) :
    d.scan t = d.closed.advance? t := by
  rw [scan, h]

end Draft

/-- No two properties of an object type share a name. -/
def ObjectType.Distinct (o : ObjectType) : Prop := (o.properties.map (·.name)).Nodup

theorem uniqueProperties_iff {o : ObjectType} :
    uniqueProperties o.properties = true ↔ o.Distinct := decide_eq_true_iff

namespace Draft

theorem settle_eq_ok_iff {d s : Draft} :
    d.settle = .ok s ↔ (∀ o, d.closing? = some o → o.Distinct) ∧ d.closed = s := by
  obtain ⟨types, stage⟩ := d
  dsimp only [settle, closing?, closed]
  split
  · next n outer ps isArray =>
    have hu := @uniqueProperties_iff ⟨ps, isArray⟩
    split
    · next h =>
      have hd : (⟨ps, isArray⟩ : ObjectType).Distinct := hu.1 h
      cases outer <;> simp [hd]
    · next h =>
      have hd : ¬ (⟨ps, isArray⟩ : ObjectType).Distinct := fun hd => h (hu.2 hd)
      simp [hd]
  · next h =>
    simp

theorem settle_eq_error_iff {d : Draft} {f : Fault} :
    d.settle = .error f ↔ f = .duplicateProperty ∧ ∃ o, d.closing? = some o ∧ ¬ o.Distinct := by
  obtain ⟨types, stage⟩ := d
  dsimp only [settle, closing?]
  split
  · next n outer ps isArray =>
    have hu := @uniqueProperties_iff ⟨ps, isArray⟩
    split
    · next h =>
      have hd : (⟨ps, isArray⟩ : ObjectType).Distinct := hu.1 h
      cases outer <;> simp [hd]
    · next h =>
      have hd : ¬ (⟨ps, isArray⟩ : ObjectType).Distinct := fun hd => h (hu.2 hd)
      simp [hd, eq_comm]
  · simp

theorem not_distinct_of_settle {d : Draft} {f : Fault} (h : d.settle = .error f) :
    ¬ ∀ o, d.closing? = some o → o.Distinct := by
  obtain ⟨-, o, ho, hd⟩ := settle_eq_error_iff.1 h
  exact fun hall => hd (hall o ho)

/-- A step is a scan that judges the closed object if the token stands behind it. -/
theorem step_eq_ok_iff {d d' : Draft} {t : Token} :
    d.step t = .ok d' ↔ d.scan t = some d' ∧
      (d.advance? t = none → ∀ o, d.closing? = some o → o.Distinct) := by
  unfold step scan
  cases ha : d.advance? t with
  | some next => simp
  | none =>
    cases hs : d.settle with
    | ok s =>
      obtain ⟨hd, rfl⟩ := settle_eq_ok_iff.1 hs
      cases hn : d.closed.advance? t with
      | some next => simpa [bind, Except.bind, hn] using fun _ => hd
      | none => simp [bind, Except.bind, hn]
    | error e =>
      have hd := not_distinct_of_settle hs
      simp [bind, Except.bind, hd]

/-- A draft is finished if its closed object passes and leaves types, and nothing but types, whose
    names are not faulty. -/
theorem finish_eq_ok_iff {d : Draft} {T : TypeSet} :
    d.finish = .ok T ↔ (∀ o, d.closing? = some o → o.Distinct) ∧ d.closed = ⟨T.types, .between⟩ ∧
      T.types ≠ [] ∧ typeNamesFault? T.types = none := by
  have hf : d.finish = .ok T ↔ ∃ s, d.settle = .ok s ∧ s.stage = .between ∧ s.types ≠ [] ∧
      typeNamesFault? s.types = none ∧ ⟨s.types⟩ = T := by
    unfold finish
    cases hs : d.settle with
    | error e => simp [bind, Except.bind]
    | ok s =>
      obtain ⟨types, stage⟩ := s
      simp only [bind, Except.bind, Except.ok.injEq, exists_eq_left']
      split
      · next t ts =>
        cases hn : typeNamesFault? (t :: ts) <;> simp
      · next hne =>
        constructor
        · intro h; cases h
        · rintro ⟨hst, hty, -⟩
          obtain ⟨t, ts, rfl⟩ := List.exists_cons_of_ne_nil hty
          exact absurd rfl (hne t ts hst)
  rw [hf]
  constructor
  · rintro ⟨⟨types, stage⟩, hs, rfl, hty, hn, rfl⟩
    obtain ⟨hd, hc⟩ := settle_eq_ok_iff.1 hs
    exact ⟨hd, hc, hty, hn⟩
  · rintro ⟨hd, hc, hty, hn⟩
    exact ⟨_, settle_eq_ok_iff.2 ⟨hd, hc⟩, rfl, hty, hn, rfl⟩

theorem run_eq_ok_iff {d : Draft} {ts : List Token} {T : TypeSet} :
    d.run ts = .ok T ↔ ∃ d', ts.foldlM step d = .ok d' ∧ d'.finish = .ok T := by
  induction ts generalizing d with
  | nil =>
    rw [run, mapError_eq_ok_iff]
    simp [pure, Except.pure]
  | cons t ts ih =>
    rw [run, List.foldlM_cons]
    cases h : d.step t with
    | ok next => exact ih
    | error e => simp [bind, Except.bind]

/-! ## Failing -/

/-- A type set can end at a draft. -/
def Complete (d : Draft) : Prop := d.closed.stage = .between ∧ d.closed.types ≠ []

/-- The closed object is judged at a draft, if there is one: nothing follows, or a token that the
    object has no use for. -/
def Judges (d : Draft) (rest : List Token) : Prop := ∀ t ∈ rest.head?, d.advance? t = none

/-- A draft cannot be read on before the given tokens even if its closed object passes. -/
def Stuck (d : Draft) : List Token → Prop
  | [] => ¬ (d.Complete ∧ typeNamesFault? d.closed.types = none)
  | t :: _ => d.scan t = none

/-- A draft cannot be read on before the given tokens: at the first of them, or at the end. -/
def Fails (d : Draft) (f : Fault) : List Token → Prop
  | [] => d.finish = .error f
  | t :: _ => d.step t = .error f

/-- A draft is unfinished if its closed object does not pass, or, the object passing, if no type set
    with passing names ends there. -/
theorem finish_eq_error_iff {d : Draft} {f : Fault} :
    d.finish = .error f ↔ d.settle = .error f ∨
      ((∀ o, d.closing? = some o → o.Distinct) ∧ d.Stuck [] ∧
        d.closed.refusal d.expected = f) := by
  unfold finish
  cases hs : d.settle with
  | error e =>
    have hd := not_distinct_of_settle hs
    simp [bind, Except.bind, hd]
  | ok s =>
    obtain ⟨hd, rfl⟩ := settle_eq_ok_iff.1 hs
    simp only [bind, Except.bind, reduceCtorEq, false_or]
    rw [and_iff_right hd, Stuck, Complete]
    obtain ⟨types, stage⟩ := d.closed
    cases stage with
    | between =>
      cases types with
      | nil => simp [refusal, typeNamesFault?]
      | cons t ts => cases hn : typeNamesFault? (t :: ts) <;> simp [refusal, hn]
    | _ => simp [refusal]

theorem step_eq_error_iff {d : Draft} {t : Token} {ts : List Token} {f : Fault} :
    d.step t = .error f ↔ d.advance? t = none ∧
      (d.settle = .error f ∨
        ((∀ o, d.closing? = some o → o.Distinct) ∧ d.Stuck (t :: ts) ∧
          d.closed.refusal d.expected = f)) := by
  unfold step
  rw [Stuck]
  cases ha : d.advance? t with
  | some next => simp
  | none =>
    rw [scan_of_closed ha]
    cases hs : d.settle with
    | error e =>
      have hd := not_distinct_of_settle hs
      simp [bind, Except.bind, hd]
    | ok s =>
      obtain ⟨hd, rfl⟩ := settle_eq_ok_iff.1 hs
      cases hn : d.closed.advance? t with
      | some next => simp [bind, Except.bind, hn]
      | none => simpa [bind, Except.bind, hn] using fun _ => hd

/-- **A draft fails where its object is judged**: the object does not pass, or it does and the draft
    is stuck. -/
theorem fails_iff {d : Draft} {f : Fault} {rest : List Token} :
    d.Fails f rest ↔ d.Judges rest ∧
      (d.settle = .error f ∨
        ((∀ o, d.closing? = some o → o.Distinct) ∧ d.Stuck rest ∧
          d.closed.refusal d.expected = f)) := by
  cases rest with
  | nil => simpa [Fails, Judges] using finish_eq_error_iff
  | cons t ts => simpa [Fails, Judges] using step_eq_error_iff

/-- A run fails where a draft first does. -/
theorem run_eq_error_iff {d : Draft} {ts : List Token} {f : Fault} {unread : Nat} :
    d.run ts = .error (f, unread) ↔ ∃ us vs d', us ++ vs = ts ∧ vs.length = unread ∧
      us.foldlM step d = .ok d' ∧ d'.Fails f vs := by
  induction ts generalizing d with
  | nil =>
    rw [run, mapError_eq_error_iff]
    constructor
    · rintro ⟨g, hg, he⟩
      cases he
      exact ⟨[], [], d, rfl, rfl, rfl, hg⟩
    · rintro ⟨us, vs, d', hts, hlen, hs, hf⟩
      obtain ⟨rfl, rfl⟩ := List.append_eq_nil_iff.1 hts
      cases hs
      exact ⟨f, hf, by rw [← hlen]; rfl⟩
  | cons t ts ih =>
    rw [run]
    constructor
    · intro h
      cases hstep : d.step t with
      | ok next =>
        rw [hstep] at h
        obtain ⟨us, vs, d', rfl, hlen, hs, hf⟩ := ih.1 h
        refine ⟨t :: us, vs, d', rfl, hlen, ?_, hf⟩
        rw [List.foldlM_cons, hstep]
        exact hs
      | error e =>
        rw [hstep] at h
        cases h
        exact ⟨[], t :: ts, d, rfl, rfl, rfl, hstep⟩
    · rintro ⟨us, vs, d', hts, hlen, hs, hf⟩
      cases us with
      | nil =>
        cases hs
        subst hts hlen
        have hstep : d.step t = .error f := hf
        rw [hstep]
        rfl
      | cons u us =>
        obtain ⟨rfl, rfl⟩ := List.cons_eq_cons.1 hts
        rw [List.foldlM_cons] at hs
        obtain ⟨e, he, hs⟩ := bind_eq_ok_iff.1 hs
        rw [he]
        exact ih.2 ⟨us, vs, d', rfl, hlen, hs, hf⟩

end Draft

/-- A fault that the reading of tokens reports: not one of the characters or of the nesting, which
    are looked at before. -/
def Fault.OfTokens : Fault → Prop
  | .unexpectedCharacter _ | .tooDeep => False
  | _ => True

theorem typeNamesFault?_ofTokens {types : List TypeDecl} {f : Fault}
    (h : typeNamesFault? types = some f) : f.OfTokens := by
  unfold typeNamesFault? at h
  split at h
  · cases h
  · split at h
    · cases h
      trivial
    · split at h <;> cases h
      trivial

theorem Draft.refusal_ofTokens (d : Draft) (ks : List Expected) : (d.refusal ks).OfTokens := by
  unfold refusal
  split
  · cases hn : typeNamesFault? d.types with
    | none => trivial
    | some f => exact typeNamesFault?_ofTokens hn
  · trivial

theorem Draft.run_fault_ofTokens {d : Draft} {ts : List Token} {f : Fault} {unread : Nat}
    (h : d.run ts = .error (f, unread)) : f.OfTokens := by
  obtain ⟨us, vs, e, -, -, -, hf⟩ := run_eq_error_iff.1 h
  obtain ⟨-, hs | ⟨-, -, rfl⟩⟩ := fails_iff.1 hf
  · obtain ⟨rfl, -⟩ := settle_eq_error_iff.1 hs
    trivial
  · exact refusal_ofTokens _ _

/-! ## Conditions on all objects of a draft -/

/-- The complete properties of the open objects. -/
def Stage.pending : Stage → List Property
  | .inside _ outer ps (.afterType p) => p :: ps ++ outer.flatMap (·.properties)
  | .inside _ outer ps _ => ps ++ outer.flatMap (·.properties)
  | _ => []

/-- The properties of a closed object are still pending. -/
theorem Draft.mem_pending {d : Draft} {o : ObjectType} {p : Property} (ho : d.closing? = some o)
    (hp : p ∈ o.properties) : p ∈ d.stage.pending := by
  obtain ⟨n, outer, hst⟩ := closing?_eq_some_iff.1 ho
  rw [hst]
  exact List.mem_append_left _ hp

/-- A condition holds of all objects that a draft has put where they belong. -/
def Draft.Throughout (Q : ObjectType → Prop) (d : Draft) : Prop :=
  (∀ decl ∈ d.types, decl.body.Throughout Q) ∧ ∀ p ∈ d.stage.pending, p.type.Throughout Q

section
variable {Q : ObjectType → Prop}

theorem Draft.throughout_empty : Draft.empty.Throughout Q := by
  simp [Draft.empty, Draft.Throughout, Stage.pending]

theorem Stage.Advance.throughout {s s' : Stage} {t : Token} (h : s.Advance t s') :
    (∀ p ∈ s'.pending, p.type.Throughout Q) ↔ ∀ p ∈ s.pending, p.type.Throughout Q := by
  cases h with
  | inside n h =>
    cases h <;>
      simp [Stage.pending, Heading.property, or_imp, forall_and, and_left_comm]
  | _ => simp [Stage.pending]

theorem Draft.throughout_closed {d : Draft} :
    d.closed.Throughout Q ↔ d.Throughout Q ∧ ∀ o, d.closing? = some o → Q o := by
  obtain ⟨types, stage⟩ := d
  dsimp only [closed, closing?, Throughout]
  split
  · next n outer ps isArray =>
    cases outer with
    | nil =>
      rw [List.forall_mem_append, List.forall_mem_singleton, ObjectType.throughout_iff]
      simp only [Stage.pending, List.flatMap_nil, List.append_nil]
      grind
    | cons o outer =>
      simp only [Stage.pending, Heading.property, List.flatMap_cons, List.cons_append,
        List.forall_mem_cons, List.forall_mem_append, PropertyType.throughout_object,
        ObjectType.throughout_iff]
      grind
  · exact ⟨fun h => ⟨h, by simp⟩, fun h => h.1⟩

/-- Scanning a token adds the object that it stands behind, if there is one. -/
theorem Draft.throughout_scan {d d' : Draft} {t : Token} (h : d.scan t = some d') :
    d'.Throughout Q ↔
      d.Throughout Q ∧ (d.advance? t = none → ∀ o, d.closing? = some o → Q o) := by
  cases ha : d.advance? t with
  | some next =>
    rw [scan_of_advance? ha, Option.some.injEq] at h
    subst h
    obtain ⟨hty, hadv⟩ := advance?_eq_some_iff.1 ha
    simp [Throughout, hty, hadv.throughout]
  | none =>
    rw [scan_of_closed ha] at h
    obtain ⟨hty, hadv⟩ := advance?_eq_some_iff.1 h
    have hc := throughout_closed (Q := Q) (d := d)
    simp only [Throughout, hty, hadv.throughout] at hc ⊢
    simpa using hc

end

/-- **Taking steps is scanning to a draft all of whose objects have distinct names.** -/
theorem Draft.steps_iff_scans {d d' : Draft} {ts : List Token} :
    (d.Throughout ObjectType.Distinct ∧ ts.foldlM step d = .ok d') ↔
      (ts.foldlM scan d = some d' ∧ d'.Throughout ObjectType.Distinct) := by
  induction ts generalizing d with
  | nil =>
    simp only [List.foldlM_nil, pure, Except.pure, Except.ok.injEq, Option.some.injEq]
    constructor
    · rintro ⟨h, rfl⟩; exact ⟨rfl, h⟩
    · rintro ⟨rfl, h⟩; exact ⟨h, rfl⟩
  | cons t ts ih =>
    rw [List.foldlM_cons, List.foldlM_cons]
    -- A step asks of the one object that its token adds what `Throughout` asks of all.
    constructor
    · rintro ⟨hd, h⟩
      obtain ⟨e, he, h⟩ := bind_eq_ok_iff.1 h
      obtain ⟨hs, hj⟩ := step_eq_ok_iff.1 he
      rw [hs]
      exact ih.1 ⟨(throughout_scan hs).2 ⟨hd, hj⟩, h⟩
    · rintro ⟨h, hd'⟩
      obtain ⟨e, hs, h⟩ := Option.bind_eq_some_iff.1 h
      obtain ⟨he, h⟩ := ih.2 ⟨h, hd'⟩
      obtain ⟨hd, hj⟩ := (throughout_scan hs).1 he
      rw [step_eq_ok_iff.2 ⟨hs, hj⟩]
      exact ⟨hd, h⟩

end TypedFlags.Schema
