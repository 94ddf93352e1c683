import TypedFlags.Proofs.Schema.Expectations
/-!
# Which repeated name is reported

A text can follow the grammar and still repeat names: of properties, in any number of its objects,
and of types. One of these faults is reported. It is that of the repeating object that **closes
first**, at the token behind it, and only if no object repeats a name, that of the types, at the end
of the text (`TypeSet.ofText_of_derivable`). No fault of the grammar comes before these, because
there is none.

Where an object closes is said of the tokens alone: `ClosesBefore ts o after` says that the tokens
of `o`, with its suffix if there is one, stand in `ts` just before `after`. That this finds the
objects of a type set, all of them and no others, is `TypeSet.hasObject_iff`. A scan links the two:
it reaches a draft with `o` closed and still to be judged just before such an `after`
(`Draft.judged_iff`), and the objects it comes by are those of its last draft
(`Draft.throughout_scans`).
-/

set_option autoImplicit false

namespace TypedFlags.Schema

/-! ## Where an object closes -/

/-- An object stands in a token sequence, and its last token stands just before `after`. A suffix
    behind its brace is its own. -/
structure ClosesBefore (ts : List Token) (o : ObjectType) (after : List Token) : Prop where
  stands : ∃ before, before ++ (o.tokens ++ after) = ts
  suffix : o.isArray = false → after.head? ≠ some .arraySuffix
  objectFirst : o.Throughout ObjectType.ObjectFirst

namespace Draft

/-- Scanning a token sequence, an object is judged before `after`. -/
def Judged (d : Draft) (ts : List Token) (o : ObjectType) (after : List Token) : Prop :=
  ∃ us e, us ++ after = ts ∧ us.foldlM scan d = some e ∧ e.closing? = some o ∧ e.Judges after

/-- A closed object is judged where no suffix of its own follows. -/
theorem judges_iff {d : Draft} {o : ObjectType} {after : List Token} (h : d.closing? = some o) :
    d.Judges after ↔ (o.isArray = false → after.head? ≠ some .arraySuffix) := by
  obtain ⟨types, stage⟩ := d
  obtain ⟨ps, isArray⟩ := o
  obtain ⟨n, outer, rfl⟩ := closing?_eq_some_iff.1 h
  cases after with
  | nil => simp [Judges]
  | cons t ts => cases isArray <;> cases t <;> simp [Judges, advance?]

theorem exists_advance? {d e : Draft} {t : Token} (h : d.scan t = some e) :
    ∃ c : Draft, c.advance? t = some e := by
  cases ha : d.advance? t with
  | some next => exact ⟨d, by rw [ha, ← scan_of_advance? ha, h]⟩
  | none => exact ⟨d.closed, by rw [← scan_of_closed ha, h]⟩

/-- Wherever a brace can be scanned, it opens an object. -/
theorem scan_leftBrace {d e : Draft} (h : d.scan .leftBrace = some e) :
    ∃ types n outer, e = ⟨types, .inside n outer [] .start⟩ := by
  obtain ⟨c, hc⟩ := exists_advance? h
  obtain ⟨-, hadv⟩ := advance?_eq_some_iff.1 hc
  obtain ⟨types, stage⟩ := e
  generalize c.stage = s at hadv
  cases hadv with
  | unnamed => exact ⟨_, _, _, rfl⟩
  | body n => exact ⟨_, _, _, rfl⟩
  | inside n hm => cases hm; exact ⟨_, _, _, rfl⟩

/-- An object whose tokens can be scanned is the one that is closed then. -/
theorem closing?_of_scans {d e : Draft} {o : ObjectType}
    (ho : o.Throughout ObjectType.ObjectFirst) (h : o.tokens.foldlM scan d = some e) :
    e.closing? = some o := by
  have htokens : o.tokens = .leftBrace ::
      (Property.listTokens o.properties ++ [.rightBrace] ++ mark o.isArray .arraySuffix) := by
    simp [o.tokens_eq]
  rw [htokens, List.foldlM_cons] at h
  obtain ⟨f, hf, h⟩ := Option.bind_eq_some_iff.1 h
  obtain ⟨types, n, outer, rfl⟩ := scan_leftBrace hf
  obtain ⟨hof, hinner⟩ := ObjectType.throughout_iff.1 ho
  rw [scans_object types n outer hof fun q hq => scansType q.type (hinner q hq)] at h
  cases h
  exact closing?_eq_some_iff.2 ⟨n, outer, rfl⟩

/-- A closed object is made of the last tokens that were read. -/
theorem Reads.exists_tokens {d : Draft} {us : List Token} {o : ObjectType} (h : d.Reads us)
    (ho : d.closing? = some o) : ∃ before, before ++ o.tokens = us := by
  obtain ⟨types, stage⟩ := d
  obtain ⟨ps, isArray⟩ := o
  obtain ⟨n, outer, rfl⟩ := closing?_eq_some_iff.1 ho
  obtain ⟨as, bs, -, hbs, rfl⟩ := h.spells
  cases hbs with
  | @inside _ _ _ _ hs hh hf =>
    exact ⟨as ++ (hs ++ outerTokens outer), by simp [Place.tokens]⟩

theorem Reads.throughout_closing {d : Draft} {us : List Token} {o : ObjectType} (h : d.Reads us)
    (ho : d.closing? = some o) : o.Throughout ObjectType.ObjectFirst := by
  obtain ⟨hall, hpending⟩ := h.objectFirst
  rw [ObjectType.throughout_iff]
  exact ⟨fun p hp => hpending p (mem_pending ho hp), fun p hp => hall.2 p (mem_pending ho hp)⟩

/-- **An object closes where it is judged.** -/
theorem judged_iff {d : Draft} {ts after : List Token} {o : ObjectType}
    (hd : ts.foldlM scan empty = some d) :
    empty.Judged ts o after ↔ ClosesBefore ts o after := by
  constructor
  · rintro ⟨us, e, rfl, hs, ho, hj⟩
    have he : e.Reads us := reads_empty.scans hs
    obtain ⟨before, rfl⟩ := he.exists_tokens ho
    exact ⟨⟨before, by simp⟩, (judges_iff ho).1 hj, he.throughout_closing ho⟩
  · rintro ⟨⟨before, rfl⟩, hsuffix, hof⟩
    -- The tokens of the object can be scanned, since all of `ts` can.
    obtain ⟨e, he, hrest⟩ := Option.bind_eq_some_iff.1 (List.foldlM_append.symm.trans hd)
    obtain ⟨f, hf, -⟩ := Option.bind_eq_some_iff.1 (List.foldlM_append.symm.trans hrest)
    have ho := closing?_of_scans hof hf
    exact ⟨before ++ o.tokens, f, by simp, scans_append he hf, ho, (judges_iff ho).2 hsuffix⟩

/-! ## The objects that a scan comes by -/

section
variable {Q : ObjectType → Prop} {d d' e : Draft} {ts : List Token}

theorem judged_nil_iff {o : ObjectType} {after : List Token} :
    d.Judged [] o after ↔ after = [] ∧ d.closing? = some o := by
  constructor
  · rintro ⟨us, e, hts, hs, ho, -⟩
    obtain ⟨rfl, rfl⟩ := List.append_eq_nil_iff.1 hts
    cases hs
    exact ⟨rfl, ho⟩
  · rintro ⟨rfl, ho⟩
    exact ⟨[], d, rfl, rfl, ho, by simp [Judges]⟩

theorem judged_cons_iff {t : Token} {o : ObjectType} {after : List Token}
    (h : d.scan t = some e) :
    d.Judged (t :: ts) o after ↔
      (after = t :: ts ∧ d.closing? = some o ∧ d.advance? t = none) ∨ e.Judged ts o after := by
  constructor
  · rintro ⟨us, f, hts, hs, ho, hj⟩
    cases us with
    | nil =>
      cases hs
      subst hts
      exact .inl ⟨rfl, ho, hj t rfl⟩
    | cons u us =>
      obtain ⟨rfl, rfl⟩ := List.cons_eq_cons.1 hts
      rw [List.foldlM_cons, h] at hs
      exact .inr ⟨us, f, rfl, hs, ho, hj⟩
  · rintro (⟨rfl, ho, ha⟩ | ⟨us, f, rfl, hs, ho, hj⟩)
    · exact ⟨[], d, rfl, rfl, ho, by simpa [Judges] using ha⟩
    · exact ⟨t :: us, f, rfl, scans_append (scans_singleton h) hs, ho, hj⟩

/-- **The objects of a last draft are those of the first and those judged on the way.** -/
theorem throughout_scans (h : ts.foldlM scan d = some d') :
    d'.Throughout Q ↔ d.Throughout Q ∧ ∀ o after, after ≠ [] → d.Judged ts o after → Q o := by
  induction ts generalizing d with
  | nil =>
    cases h
    simp only [judged_nil_iff]
    grind
  | cons t ts ih =>
    rw [List.foldlM_cons] at h
    obtain ⟨e, he, h⟩ := Option.bind_eq_some_iff.1 h
    -- The one object that scanning `t` adds is the one judged before `t`.
    rw [ih h, throughout_scan he]
    constructor
    · rintro ⟨⟨hd, hnow⟩, hlater⟩
      refine ⟨hd, fun o after hne hj => ?_⟩
      obtain ⟨-, ho, ha⟩ | hj := (judged_cons_iff he).1 hj
      · exact hnow ha o ho
      · exact hlater o after hne hj
    · rintro ⟨hd, hall⟩
      refine ⟨⟨hd, fun ha o ho => ?_⟩, fun o after hne hj => ?_⟩
      · exact hall o _ (List.cons_ne_nil t ts) ((judged_cons_iff he).2 (.inl ⟨rfl, ho, ha⟩))
      · exact hall o after hne ((judged_cons_iff he).2 (.inr hj))

/-- The same with the object that is judged at the end. -/
theorem throughout_closed_scans (h : ts.foldlM scan d = some d') :
    d'.closed.Throughout Q ↔ d.Throughout Q ∧ ∀ o after, d.Judged ts o after → Q o := by
  have hend {o : ObjectType} : d.Judged ts o [] ↔ d'.closing? = some o := by
    constructor
    · rintro ⟨us, e, hus, hs, ho, -⟩
      rw [List.append_nil] at hus
      rw [hus, h] at hs
      cases hs
      exact ho
    · intro ho
      exact ⟨ts, d', by simp, h, ho, by simp [Judges]⟩
  rw [throughout_closed, throughout_scans h]
  simp only [← hend]
  grind

/-- What is judged within the tokens already scanned has become part of the draft. -/
theorem Judged.passed {us vs rest : List Token} {o : ObjectType} (hd : us.foldlM scan d = some e)
    (hQ : e.Throughout Q) (h : d.Judged (us ++ vs) o rest) (hlt : vs.length < rest.length) :
    Q o := by
  obtain ⟨as, f, hts, hs, ho, hj⟩ := h
  obtain ⟨ws, rfl, rfl⟩ | ⟨ws, rfl, rfl⟩ := List.append_eq_append_iff.1 hts
  · cases ws with
    | nil => exact absurd hlt (Nat.lt_irrefl _)
    | cons t ws =>
      have hj : f.Judges (t :: ws) := by simpa [Judges] using hj
      exact ((throughout_scans hd).1 hQ).2 o _ (List.cons_ne_nil t ws) ⟨as, f, rfl, hs, ho, hj⟩
  · rw [List.length_append] at hlt
    omega

end

end Draft

section
variable {U : TypeSet} {ts : List Token} (hU : U.Yields ts) (hof : U.ObjectFirst)
include hU hof

theorem TypeSet.forall_hasObject_iff_closesBefore {Q : ObjectType → Prop} :
    (∀ o, U.HasObject o → Q o) ↔ ∀ o after, ClosesBefore ts o after → Q o := by
  obtain ⟨-, d, hd, hc⟩ := TypeSet.yields_iff_scans.1 ⟨hU, hof⟩
  rw [TypeSet.forall_hasObject_iff_throughout hc, Draft.throughout_closed_scans hd,
    and_iff_right Draft.throughout_empty]
  simp only [Draft.judged_iff hd]

/-- **The objects that close in the tokens of a type set are the objects of the set.** -/
theorem TypeSet.hasObject_iff {o : ObjectType} :
    U.HasObject o ↔ ∃ after, ClosesBefore ts o after := by
  constructor
  · intro ho
    by_contra hn
    have hne : ∀ q after, ClosesBefore ts q after → q ≠ o := by
      rintro q after hq rfl
      exact hn ⟨after, hq⟩
    exact (TypeSet.forall_hasObject_iff_closesBefore hU hof).2 hne o ho rfl
  · rintro ⟨after, h⟩
    exact (TypeSet.forall_hasObject_iff_closesBefore hU hof).1 (fun _ ho => ho) o after h

end

/-! ## The fault that is reported -/

/-- Some object of a type set, at some depth, repeats the name of a property. -/
def TypeSet.Repeats (T : TypeSet) : Prop := ∃ o, T.HasObject o ∧ ¬ o.Distinct

/-- Of the objects in a token sequence that repeat the name of a property, one closes first. -/
structure ClosesFirst (ts : List Token) (o : ObjectType) (after : List Token) : Prop where
  closes : ClosesBefore ts o after
  repeats : ¬ o.Distinct
  first : ∀ q rest, ClosesBefore ts q rest → ¬ q.Distinct → rest.length ≤ after.length

theorem typeNamesFault?_eq_some_iff {T : TypeSet} {f : Fault} :
    typeNamesFault? T.types = some f ↔ ¬ T.WellNamed ∧
      f = if (T.types.filter (·.isMain)).length = 1 then .duplicateType else .ambiguousMain := by
  rw [← typeNamesFault?_eq_none_iff]
  unfold typeNamesFault?
  split_ifs <;> simp_all [eq_comm]

section
variable {U : TypeSet} {ts : List Token} (hU : U.Yields ts) (hof : U.ObjectFirst)
include hU hof

/-- What can be wrong with tokens that the grammar yields: an object or the names of the types. -/
theorem TypeSet.ofTokens_error {f : Fault} {unread : Nat}
    (h : TypeSet.ofTokens ts = .error (f, unread)) :
    (f = .duplicateProperty ∧ ∃ o after, ClosesFirst ts o after ∧ after.length = unread) ∨
      (¬ U.Repeats ∧ typeNamesFault? U.types = some f ∧ unread = 0) := by
  obtain ⟨us, vs, d, rfl, rfl, hsteps, hf⟩ := Draft.run_eq_error_iff.1 h
  obtain ⟨hd, hdistinct⟩ := Draft.steps_iff_scans.1 ⟨Draft.throughout_empty, hsteps⟩
  obtain ⟨hne, e, he, hc⟩ := TypeSet.yields_iff_scans.1 ⟨hU, hof⟩
  obtain ⟨hj, hs | ⟨hpass, hstuck, hr⟩⟩ := Draft.fails_iff.1 hf
  · obtain ⟨rfl, o, ho, hrep⟩ := Draft.settle_eq_error_iff.1 hs
    refine .inl ⟨rfl, o, vs, ⟨(Draft.judged_iff he).1 ⟨us, d, rfl, hd, ho, hj⟩, hrep, ?_⟩, rfl⟩
    intro q rest hq hqrep
    by_contra hlt
    exact hqrep (((Draft.judged_iff he).2 hq).passed hd hdistinct (Nat.lt_of_not_le hlt))
  · rw [List.foldlM_append, hd] at he
    have hrest : vs.foldlM Draft.scan d = some e := he
    cases vs with
    | cons t vs =>
      -- All tokens can be scanned, so nothing gets stuck before the end.
      obtain ⟨next, hnext, -⟩ := Option.bind_eq_some_iff.1 hrest
      rw [Draft.Stuck, hnext] at hstuck
      cases hstuck
    | nil =>
      cases hrest
      have hall := (TypeSet.forall_hasObject_iff_throughout hc).2
        (Draft.throughout_closed.2 ⟨hdistinct, hpass⟩)
      have hnames : typeNamesFault? U.types ≠ none := by
        intro hn
        rw [Draft.Stuck, Draft.Complete, hc] at hstuck
        exact hstuck ⟨⟨rfl, hne⟩, hn⟩
      obtain ⟨g, hg⟩ := Option.ne_none_iff_exists'.1 hnames
      rw [hc, Draft.refusal, hg] at hr
      cases hr
      refine .inr ⟨?_, hg, rfl⟩
      rintro ⟨o, ho, hrep⟩
      exact hrep (hall o ho)

/-- What is read repeats no names. -/
theorem TypeSet.not_repeats_of_ofTokens {T : TypeSet} (h : TypeSet.ofTokens ts = .ok T) :
    ¬ U.Repeats ∧ U.WellNamed := by
  obtain ⟨hscans, hdistinct, hnamed⟩ := TypeSet.ofTokens_iff_scans.1 h
  obtain ⟨hT, hTof⟩ := TypeSet.yields_iff_scans.2 hscans
  obtain rfl := TypeSet.eq_of_yields hT hU hTof hof
  refine ⟨?_, hnamed⟩
  rintro ⟨o, ho, hrep⟩
  exact hrep (hdistinct o ho)

theorem TypeSet.ofTokens_of_repeats (h : U.Repeats) :
    ∃ o after, ClosesFirst ts o after ∧
      TypeSet.ofTokens ts = .error (.duplicateProperty, after.length) := by
  cases hr : TypeSet.ofTokens ts with
  | ok T => exact absurd h (TypeSet.not_repeats_of_ofTokens hU hof hr).1
  | error e =>
    obtain ⟨f, unread⟩ := e
    obtain ⟨rfl, o, after, hfirst, rfl⟩ | ⟨hn, -⟩ := TypeSet.ofTokens_error hU hof hr
    · exact ⟨o, after, hfirst, rfl⟩
    · exact absurd h hn

theorem TypeSet.ofTokens_of_not_repeats {f : Fault} (h : ¬ U.Repeats)
    (hf : typeNamesFault? U.types = some f) : TypeSet.ofTokens ts = .error (f, 0) := by
  cases hr : TypeSet.ofTokens ts with
  | ok T =>
    have hnamed := (TypeSet.not_repeats_of_ofTokens hU hof hr).2
    exact absurd hnamed (typeNamesFault?_eq_some_iff.1 hf).1
  | error e =>
    obtain ⟨g, unread⟩ := e
    obtain ⟨-, o, after, hfirst, -⟩ | ⟨-, hg, rfl⟩ := TypeSet.ofTokens_error hU hof hr
    · exact absurd ⟨o, (TypeSet.hasObject_iff hU hof).2 ⟨after, hfirst.closes⟩, hfirst.repeats⟩ h
    · rw [hf] at hg
      cases hg
      rfl

end

/-- A text is refused for a fault, which is worded so, at a place. -/
def Refused (text : String) (fault : Fault) (detail : String) (position : Text.Position) : Prop :=
  TypeSet.ofText text = .error ⟨fault, position⟩ ∧ fault.detail = detail

theorem TypeSet.ofText_eq_mapError {text : String} {ls : List Lexeme}
    (hls : lexemes text.toList 0 = .ok ls) (hdeep : tooDeep? 0 ls = none) :
    TypeSet.ofText text = (TypeSet.ofTokens (ls.map (·.token))).mapError fun (fault, unread) =>
      ⟨fault, placeOf text.toList ls unread⟩ := by
  simp only [TypeSet.ofText, hls, hdeep]

theorem placeOf_zero (text : List Char) (ls : List Lexeme) :
    placeOf text ls 0 = .after text := by
  simp [placeOf]

/-- **A text that follows the grammar is refused for its names alone.** If an object repeats the
    name of a property, that is reported behind the one of those objects that closes first; if none
    does, the names of the types are reported at the end. -/
theorem TypeSet.ofText_of_derivable {text : String} {ls : List Lexeme}
    (hls : lexemes text.toList 0 = .ok ls) (hdeep : tooDeep? 0 ls = none)
    (hts : Derivable (ls.map (·.token))) :
    ∃ U : TypeSet, U.Yields (ls.map (·.token)) ∧ U.ObjectFirst ∧
      (U.Repeats → ∃ o after, ClosesFirst (ls.map (·.token)) o after ∧
        Refused text .duplicateProperty "property names must be unique within an object"
          (placeOf text.toList ls after.length)) ∧
      (¬ U.Repeats → ¬ U.WellNamed → (U.types.filter (·.isMain)).length ≠ 1 →
        Refused text .ambiguousMain "exactly one type must be unnamed" (.after text.toList)) ∧
      (¬ U.Repeats → ¬ U.WellNamed → (U.types.filter (·.isMain)).length = 1 →
        Refused text .duplicateType "type names must be unique" (.after text.toList)) := by
  obtain ⟨T, hT⟩ := hts
  obtain ⟨U, hU, hof⟩ := hT.exists_objectFirst
  have htext := TypeSet.ofText_eq_mapError hls hdeep
  have hend {f : Fault} (hn : ¬ U.Repeats) (hf : typeNamesFault? U.types = some f) :
      TypeSet.ofText text = .error ⟨f, .after text.toList⟩ := by
    rw [htext, TypeSet.ofTokens_of_not_repeats hU hof hn hf, ← placeOf_zero text.toList ls]
    rfl
  refine ⟨U, hU, hof, ?_, ?_, ?_⟩
  · intro hr
    obtain ⟨o, after, hfirst, hts⟩ := TypeSet.ofTokens_of_repeats hU hof hr
    exact ⟨o, after, hfirst, by rw [htext, hts]; rfl, rfl⟩
  · intro hn hw hone
    exact ⟨hend hn (typeNamesFault?_eq_some_iff.2 ⟨hw, by rw [if_neg hone]⟩), rfl⟩
  · intro hn hw hone
    exact ⟨hend hn (typeNamesFault?_eq_some_iff.2 ⟨hw, by rw [if_pos hone]⟩), rfl⟩

/-- Two objects repeat a name, the one inside the other, and two types are unnamed. -/
theorem TypeSet.ofText_of_derivable_together :
    let text := "\x7ba:\x7bb:float,b:float\x7d[],a:float\x7d\x7b\x7d"
    let ls : List Lexeme := [⟨0, .leftBrace⟩, ⟨1, .identifier "a"⟩, ⟨2, .colon⟩, ⟨3, .leftBrace⟩,
      ⟨4, .identifier "b"⟩, ⟨5, .colon⟩, ⟨6, .primitive .float⟩, ⟨11, .comma⟩,
      ⟨12, .identifier "b"⟩, ⟨13, .colon⟩, ⟨14, .primitive .float⟩, ⟨19, .rightBrace⟩,
      ⟨20, .arraySuffix⟩, ⟨22, .comma⟩, ⟨23, .identifier "a"⟩, ⟨24, .colon⟩,
      ⟨25, .primitive .float⟩, ⟨30, .rightBrace⟩, ⟨31, .leftBrace⟩, ⟨32, .rightBrace⟩]
    lexemes text.toList 0 = .ok ls ∧ tooDeep? 0 ls = none ∧ Derivable (ls.map (·.token)) ∧
      ∃ o after, ClosesFirst (ls.map (·.token)) o after ∧
        Refused text .duplicateProperty "property names must be unique within an object"
          (placeOf text.toList ls after.length) := by
  intro text ls
  have hls : lexemes text.toList 0 = .ok ls := by decide +kernel
  have hdeep : tooDeep? 0 ls = none := rfl
  have hts : Derivable (ls.map (·.token)) :=
    derivable_iff.2 ⟨_, rfl, rfl, List.cons_ne_nil _ _⟩
  obtain ⟨U, hU, hof, hrefused, -⟩ := TypeSet.ofText_of_derivable hls hdeep hts
  let p : Property := ⟨"b", false, false, .primitive .float⟩
  have hinner : ClosesBefore (ls.map (·.token)) ⟨[p, p], true⟩
      ((ls.drop 13).map (·.token)) := {
    stands := ⟨(ls.take 3).map (·.token), rfl⟩
    suffix := by simp
    objectFirst := by simp [ObjectType.throughout_iff, ObjectType.ObjectFirst,
      Property.ObjectFirst, p]
  }
  have hrepeats : U.Repeats :=
    ⟨⟨[p, p], true⟩, (TypeSet.hasObject_iff hU hof).2 ⟨_, hinner⟩,
      by simp [ObjectType.Distinct]⟩
  exact ⟨hls, hdeep, hts, hrefused hrepeats⟩

end TypedFlags.Schema
