import TypedFlags.Proofs.Except
import TypedFlags.Proofs.Schema.Lexing
import TypedFlags.Proofs.Schema.Nesting
import TypedFlags.Proofs.Schema.Parsing
/-!
# Printing and reading back

A type set is written down type by type (`TypeSet.Prints`), a named type behind either of the two
headings, and its tokens are laid out with spaces, tabs and line ends between them (`LaidOut`). A set
that can be written at all (`TypeSet.Writable`) is read back from every such text
(`TypeSet.ofText_printed`).

**Layout is needed in one place.** Behind `type` and `interface` a name follows, and words run
together. Everywhere else in a printed set one of two neighbours is punctuation: two tokens may stand
side by side (`TypeSet.Prints.apart`).
-/

set_option autoImplicit false

namespace TypedFlags.Schema

/-! ## What can be written -/

/-- The leaves of a property type can be written. -/
def PropertyType.Legible : PropertyType → Prop
  | .primitive kind => kind ≠ .unrecognized
  | .reference name => IsName name
  | .object _ => True

instance : DecidablePred PropertyType.Legible
  | .primitive kind => inferInstanceAs (Decidable (kind ≠ .unrecognized))
  | .reference name => inferInstanceAs (Decidable (IsName name))
  | .object _ => .isTrue trivial

/-- A property can be written, apart from an object type in its place. -/
structure Property.Legible (p : Property) : Prop where
  name : IsName p.name
  type : p.type.Legible

def ObjectType.Legible (o : ObjectType) : Prop := ∀ p ∈ o.properties, p.Legible

/-- A type set that schema text can express. -/
structure TypeSet.Writable (T : TypeSet) : Prop where
  nonempty : T.types ≠ []
  typeNames : ∀ decl ∈ T.types, decl.name = "" ∨ IsName decl.name
  properties : ∀ p, T.HasProperty p → p.Legible
  objectFirst : T.ObjectFirst
  distinct : ∀ o, T.HasObject o → o.Distinct
  wellNamed : T.WellNamed
  nesting : ∀ decl ∈ T.types, decl.body.nesting ≤ maxNesting

/-! ## Printing -/

/-- The tokens of a type. A named one may be headed in either way. -/
inductive TypeDecl.Prints : TypeDecl → List Token → Prop
  | unnamed (body : ObjectType) : TypeDecl.Prints ⟨"", body⟩ body.tokens
  | type (body : ObjectType) {name : String} (h : name ≠ "") : TypeDecl.Prints ⟨name, body⟩
      ([.typeKeyword, .identifier name, .equals] ++ body.tokens)
  | interface (body : ObjectType) {name : String} (h : name ≠ "") : TypeDecl.Prints ⟨name, body⟩
      ([.interfaceKeyword, .identifier name] ++ body.tokens)

/-- The tokens of types in a row. -/
inductive TypeDecl.PrintList : List TypeDecl → List Token → Prop
  | nil : TypeDecl.PrintList [] []
  | cons {decl : TypeDecl} {decls : List TypeDecl} {ts us : List Token} (h : decl.Prints ts)
      (hs : TypeDecl.PrintList decls us) : TypeDecl.PrintList (decl :: decls) (ts ++ us)

def TypeSet.Prints (T : TypeSet) (ts : List Token) : Prop := TypeDecl.PrintList T.types ts

/-- A token sequence is laid out: `first` stands before it and a gap behind every token, and a
    keyword that heads a type is kept apart from the name of the type. -/
structure LaidOut (first : List Char) (ls : List Spaced) : Prop where
  first : IsGap first
  behind : ∀ l ∈ ls, IsGap l.gap
  heading : ∀ l ∈ ls, l.token = .typeKeyword ∨ l.token = .interfaceKeyword → l.gap ≠ []

theorem TypeDecl.Prints.yields {decl : TypeDecl} {ts : List Token} (h : decl.Prints ts) :
    decl.Yields ts := by
  have hbody : decl.body.Yields decl.body.tokens := ObjectType.yields_iff.2 rfl
  cases h with
  | unnamed body =>
    have hh : Heads (TypeDecl.mk "" body).name [] := .unnamed
    exact .intro hh hbody
  | @type body name hne =>
    have hh : Heads (TypeDecl.mk name body).name [.typeKeyword, .identifier name, .equals] :=
      .type name
    exact .intro hh hbody
  | @interface body name hne =>
    have hh : Heads (TypeDecl.mk name body).name [.interfaceKeyword, .identifier name] :=
      .interface name
    exact .intro hh hbody

theorem TypeDecl.PrintList.yieldList {decls : List TypeDecl} {ts : List Token}
    (h : TypeDecl.PrintList decls ts) : TypeDecl.YieldList decls ts := by
  induction h with
  | nil => exact .nil
  | cons h _ ih => exact .cons h.yields ih

/-! ## All tokens can be written -/

theorem legible_mark {present : Bool} {t : Token} (h : t.Legible) :
    ∀ u ∈ mark present t, u.Legible := by
  cases present <;> simp [h]

theorem Property.legible_tokens {p : Property} (hp : p.Legible)
    (ht : ∀ t ∈ p.type.tokens, t.Legible) : ∀ t ∈ p.tokens, t.Legible := by
  rw [p.tokens_eq]
  simp only [List.forall_mem_append, List.forall_mem_singleton]
  exact ⟨⟨⟨⟨hp.name, legible_mark trivial⟩, trivial⟩, ht⟩, legible_mark trivial⟩

theorem Property.legible_listTokens {ps : List Property}
    (h : ∀ p ∈ ps, ∀ t ∈ p.tokens, t.Legible) : ∀ t ∈ listTokens ps, t.Legible := by
  induction ps with
  | nil => simp [listTokens]
  | cons p ps ih =>
    obtain ⟨hp, hps⟩ := List.forall_mem_cons.1 h
    cases ps with
    | nil => exact hp
    | cons q ps =>
      rw [listTokens_cons_cons, List.forall_mem_append, List.forall_mem_append,
        List.forall_mem_singleton]
      exact ⟨⟨hp, trivial⟩, ih hps⟩

theorem ObjectType.legible_tokens {o : ObjectType}
    (h : ∀ p ∈ o.properties, ∀ t ∈ p.tokens, t.Legible) : ∀ t ∈ o.tokens, t.Legible := by
  rw [o.tokens_eq]
  simp only [List.forall_mem_append, List.forall_mem_singleton]
  exact ⟨⟨⟨trivial, Property.legible_listTokens h⟩, trivial⟩, legible_mark trivial⟩

theorem PropertyType.legible_tokens {type : PropertyType} (hl : type.Legible)
    (hall : type.Throughout ObjectType.Legible) : ∀ t ∈ type.tokens, t.Legible := by
  induction type using PropertyType.induction_on_objects with
  | primitive kind =>
    rw [PropertyType.tokens, List.forall_mem_singleton]
    exact hl
  | reference name =>
    rw [PropertyType.tokens, List.forall_mem_singleton]
    exact hl
  | object o ih =>
    rw [PropertyType.throughout_object, ObjectType.throughout_iff] at hall
    obtain ⟨ho, hps⟩ := hall
    exact ObjectType.legible_tokens fun p hp =>
      Property.legible_tokens (ho p hp) (ih p hp (ho p hp).type (hps p hp))

theorem TypeDecl.Prints.legible {decl : TypeDecl} {ts : List Token} (h : decl.Prints ts)
    (hn : decl.name = "" ∨ IsName decl.name) (hall : decl.body.Throughout ObjectType.Legible) :
    ∀ t ∈ ts, t.Legible := by
  have hbody : ∀ t ∈ decl.body.tokens, t.Legible := by
    have htype : (PropertyType.object decl.body).Legible := trivial
    exact PropertyType.legible_tokens htype (PropertyType.throughout_object.2 hall)
  cases h with
  | unnamed => exact hbody
  | type body hne =>
    rw [List.forall_mem_append]
    refine ⟨?_, hbody⟩
    simp only [List.forall_mem_cons]
    exact ⟨trivial, hn.resolve_left hne, trivial, by simp⟩
  | interface body hne =>
    rw [List.forall_mem_append]
    refine ⟨?_, hbody⟩
    simp only [List.forall_mem_cons]
    exact ⟨trivial, hn.resolve_left hne, by simp⟩

/-! ## Neighbours -/

/-- Neighbours may stand side by side, but for the name of a type and the keyword before it. -/
def Apart (ts : List Token) : Prop :=
  ts.IsChain fun a b => (a = .typeKeyword ∨ a = .interfaceKeyword) ∨ a.Meets b

def NoWord (ts : List Token) : Prop := ∀ t ∈ ts.head?, ¬ t.IsWord

theorem apart_word {t : Token} {ts : List Token} (ht : t ≠ .leftBracket) (hn : NoWord ts)
    (h : Apart ts) : Apart (t :: ts) := by
  refine List.isChain_cons.2 ⟨fun u hu => ?_, h⟩
  exact .inr ⟨fun hw => hn u hu hw.2, fun hb => ht hb.1⟩

theorem apart_sign {t : Token} {ts : List Token} (ht : t ≠ .leftBracket) (hw : ¬ t.IsWord)
    (h : Apart ts) : Apart (t :: ts) := by
  refine List.isChain_cons.2 ⟨fun u hu => ?_, h⟩
  exact .inr ⟨fun hb => hw hb.1, fun hb => ht hb.1⟩

theorem noWord_sign {t : Token} {ts : List Token} (hw : ¬ t.IsWord) : NoWord (t :: ts) := by
  rintro u hu
  cases hu
  exact hw

theorem apart_keyword {t : Token} {ts : List Token} (ht : t = .typeKeyword ∨ t = .interfaceKeyword)
    (h : Apart ts) : Apart (t :: ts) :=
  List.isChain_cons.2 ⟨fun _ _ => .inl ht, h⟩

theorem noWord_suffix {present : Bool} {rest : List Token} (h : NoWord rest) :
    NoWord (mark present .arraySuffix ++ rest) := by
  cases present
  · exact h
  · exact noWord_sign not_false

theorem apart_suffix {present : Bool} {rest : List Token} (h : Apart rest) :
    Apart (mark present .arraySuffix ++ rest) := by
  cases present
  · exact h
  · exact apart_sign (by decide) not_false h

/-- Tokens that keep their neighbours apart before everything that does not start with a word. -/
def ApartBefore (ts : List Token) : Prop :=
  ∀ rest : List Token, NoWord rest → Apart rest → Apart (ts ++ rest)

theorem ApartBefore.property {p : Property} (h : ApartBefore p.type.tokens) :
    ApartBefore p.tokens := by
  obtain ⟨name, isOptional, isArray, type⟩ := p
  intro rest hn hr
  have htype : Apart (.colon :: (type.tokens ++ (mark isArray .arraySuffix ++ rest))) :=
    apart_sign (by decide) not_false (h _ (noWord_suffix hn) (apart_suffix hr))
  have hcolon : NoWord (.colon :: (type.tokens ++ (mark isArray .arraySuffix ++ rest))) := noWord_sign not_false
  rw [Property.tokens]
  cases isOptional with
  | false =>
    have := apart_word (t := .identifier name) (by simp) hcolon htype
    simpa using this
  | true =>
    have hquestion := apart_sign (t := .question) (by decide) not_false htype
    have hsign : NoWord (.question :: .colon ::
        (type.tokens ++ (mark isArray .arraySuffix ++ rest))) := noWord_sign not_false
    have := apart_word (t := .identifier name) (by simp) hsign hquestion
    simpa using this

theorem ApartBefore.list {ps : List Property} (h : ∀ p ∈ ps, ApartBefore p.tokens) :
    ApartBefore (Property.listTokens ps) := by
  induction ps with
  | nil => exact fun _ _ hr => hr
  | cons p ps ih =>
    obtain ⟨hp, hps⟩ := List.forall_mem_cons.1 h
    cases ps with
    | nil => exact hp
    | cons q ps =>
      intro rest hn hr
      have hrest : Apart (.comma :: (Property.listTokens (q :: ps) ++ rest)) :=
        apart_sign (by decide) not_false (ih hps rest hn hr)
      have hcomma : NoWord (.comma :: (Property.listTokens (q :: ps) ++ rest)) := noWord_sign not_false
      have := hp _ hcomma hrest
      rw [Property.listTokens_cons_cons]
      simpa using this

/-- Behind an object everything may stand. -/
theorem ApartBefore.object {o : ObjectType} {rest : List Token}
    (h : ∀ p ∈ o.properties, ApartBefore p.tokens) (hr : Apart rest) : Apart (o.tokens ++ rest) := by
  -- The closing brace ends the last property, and parts it from whatever comes.
  have hclose : Apart (.rightBrace :: (mark o.isArray .arraySuffix ++ rest)) :=
    apart_sign (by decide) not_false (apart_suffix hr)
  have hn : NoWord (.rightBrace :: (mark o.isArray .arraySuffix ++ rest)) := noWord_sign not_false
  have hopen := apart_sign (t := .leftBrace) (by decide) not_false (ApartBefore.list h _ hn hclose)
  rw [o.tokens_eq]
  simpa using hopen

theorem PropertyType.apartBefore_tokens (type : PropertyType) : ApartBefore type.tokens := by
  induction type using PropertyType.induction_on_objects with
  | primitive kind => exact fun _ hn hr => apart_word (by simp) hn hr
  | reference name => exact fun _ hn hr => apart_word (by simp) hn hr
  | object o ih => exact fun _ _ hr => ApartBefore.object (fun p hp => .property (ih p hp)) hr

theorem ObjectType.apart_tokens {o : ObjectType} {rest : List Token} (hr : Apart rest) :
    Apart (o.tokens ++ rest) :=
  ApartBefore.object (fun p _ => .property p.type.apartBefore_tokens) hr

theorem TypeDecl.Prints.apart {decl : TypeDecl} {ts rest : List Token} (h : decl.Prints ts)
    (hr : Apart rest) : Apart (ts ++ rest) := by
  cases h with
  | unnamed body => exact body.apart_tokens hr
  | @type body name _ =>
    have hequals : Apart (.equals :: (body.tokens ++ rest)) :=
      apart_sign (by decide) not_false (body.apart_tokens hr)
    have hname : Apart (.identifier name :: .equals :: (body.tokens ++ rest)) :=
      apart_word (by simp) (noWord_sign not_false) hequals
    exact apart_keyword (.inl rfl) hname
  | @interface body name _ =>
    have hbrace : NoWord (body.tokens ++ rest) := by
      rw [body.tokens_eq]
      exact noWord_sign not_false
    have hname : Apart (.identifier name :: (body.tokens ++ rest)) :=
      apart_word (by simp) hbrace (body.apart_tokens hr)
    exact apart_keyword (.inr rfl) hname

/-! ## Whole type sets -/

namespace TypeSet.Prints

variable {T : TypeSet} {ts : List Token}

theorem yields (h : T.Prints ts) (hne : T.types ≠ []) : T.Yields ts := ⟨hne, h.yieldList⟩

theorem legible (h : T.Prints ts) (hT : T.Writable) : ∀ t ∈ ts, t.Legible := by
  have hall := TypeSet.forall_hasObject_iff.1 (TypeSet.forall_hasProperty_iff.1 hT.properties)
  have hn := hT.typeNames
  unfold TypeSet.Prints at h
  generalize T.types = decls at h hall hn
  induction h with
  | nil => simp
  | cons h _ ih =>
    rw [List.forall_mem_cons] at hall hn
    rw [List.forall_mem_append]
    exact ⟨h.legible hn.1 hall.1, ih hall.2 hn.2⟩

theorem apart (h : T.Prints ts) : Apart ts := by
  unfold TypeSet.Prints at h
  generalize T.types = decls at h
  induction h with
  | nil => exact .nil
  | cons h _ ih => exact h.apart ih

theorem shallow (h : T.Prints ts) (hn : ∀ decl ∈ T.types, decl.body.nesting ≤ maxNesting) :
    Shallow 0 ts := by
  unfold TypeSet.Prints at h
  generalize T.types = decls at h hn
  induction h with
  | nil => trivial
  | cons h _ ih =>
    rw [List.forall_mem_cons] at hn
    exact h.yields.shallow_append.2 ⟨hn.1, ih hn.2⟩

end TypeSet.Prints

/-- A text is read as a type set if it is cut into tokens, these pass the check for nesting, and they
    are read as the set. -/
theorem TypeSet.ofText_eq_ok_iff {text : String} {T : TypeSet} :
    TypeSet.ofText text = .ok T ↔ ∃ ls, lexemes text.toList 0 = .ok ls ∧
      Shallow 0 (ls.map (·.token)) ∧ TypeSet.ofTokens (ls.map (·.token)) = .ok T := by
  unfold TypeSet.ofText
  dsimp only
  cases hl : lexemes text.toList 0 with
  | error e => simp
  | ok ls =>
    simp only [Except.ok.injEq, exists_eq_left', ← tooDeep?_eq_none_iff]
    cases hd : tooDeep? 0 ls with
    | some offset => simp
    | none => rw [mapError_eq_ok_iff, eq_self, true_and]

/-- **A printed type set is read back.** Whichever way the named types are headed, and whatever
    layout stands around the tokens, the text is read as the set that was printed. -/
theorem TypeSet.ofText_printed {T : TypeSet} {first : List Char} {ls : List Spaced}
    (hT : T.Writable) (hp : T.Prints (ls.map (·.token))) (hl : LaidOut first ls) :
    TypeSet.ofText (String.ofList (first ++ spacedText ls)) = .ok T := by
  have hlegible := hp.legible hT
  have hsound : ∀ l ∈ ls, l.Sound := fun l hm =>
    ⟨hlegible l.token (List.mem_map_of_mem hm), hl.behind l hm⟩
  -- Where a keyword heads a type the layout parts the words, elsewhere the tokens do.
  have hparted : ls.IsChain Spaced.Parted := by
    refine List.IsChain.imp_of_mem_imp ?_ ((List.isChain_map _).1 hp.apart)
    intro a b ha _ hab
    exact hab.imp (hl.heading a ha) id
  obtain ⟨lex, hlex, htokens⟩ := lexemes_spaced hsound hparted (0 + first.length)
  rw [TypeSet.ofText_eq_ok_iff]
  refine ⟨lex, ?_, ?_, ?_⟩
  · rw [String.toList_ofList, lexemes_gap hl.first, hlex]
  · rw [htokens]
    exact hp.shallow hT.nesting
  · rw [htokens, TypeSet.ofTokens_iff_scans, ← TypeSet.yields_iff_scans]
    exact ⟨⟨hp.yields hT.nonempty, hT.objectFirst⟩, hT.distinct, hT.wellNamed⟩

/-- Behind `typed` the first `[]` is the inner object's and the second the property's. The names
    `typed`, `string1` and `interface_` start like keywords. -/
theorem TypeSet.ofText_printed_nested :
    let inner : ObjectType := ⟨[⟨"string1", true, false, .primitive .string⟩], true⟩
    let main : ObjectType := ⟨[⟨"typed", false, true, .object inner⟩,
      ⟨"$", false, true, .reference "interface_"⟩], false⟩
    let T : TypeSet := ⟨[⟨"interface_", ⟨[], true⟩⟩, ⟨"", main⟩]⟩
    TypeSet.ofText (String.ofList ([' '] ++ spacedText [
      ⟨.interfaceKeyword, ['\t']⟩, ⟨.identifier "interface_", []⟩, ⟨.leftBrace, []⟩,
      ⟨.rightBrace, ['\r', '\n']⟩, ⟨.arraySuffix, []⟩,
      ⟨.leftBrace, []⟩, ⟨.identifier "typed", []⟩, ⟨.colon, []⟩, ⟨.leftBrace, []⟩,
      ⟨.identifier "string1", []⟩, ⟨.question, []⟩, ⟨.colon, [' ']⟩, ⟨.primitive .string, []⟩,
      ⟨.rightBrace, []⟩, ⟨.arraySuffix, []⟩, ⟨.arraySuffix, []⟩, ⟨.comma, []⟩,
      ⟨.identifier "$", []⟩, ⟨.colon, []⟩, ⟨.identifier "interface_", []⟩, ⟨.arraySuffix, []⟩,
      ⟨.rightBrace, ['\n']⟩])) = .ok T := by
  intro inner main T
  have hT : T.Writable := {
    nonempty := by simp [T]
    typeNames := by simp [T]; decide
    properties := by
      have htyped : Property.Legible ⟨"typed", false, true, .object inner⟩ := ⟨by decide, trivial⟩
      have hdollar : Property.Legible ⟨"$", false, true, .reference "interface_"⟩ :=
        ⟨by decide, by decide⟩
      have hstring : Property.Legible ⟨"string1", true, false, .primitive .string⟩ :=
        ⟨by decide, by decide⟩
      rw [TypeSet.forall_hasProperty_iff]
      refine TypeSet.forall_hasObject_iff.2 ?_
      simpa [T, main, inner, ObjectType.throughout_iff] using ⟨⟨htyped, hdollar⟩, hstring⟩
    objectFirst := by
      rw [TypeSet.objectFirst_iff]
      simp [T, main, inner, ObjectType.throughout_iff, ObjectType.ObjectFirst, Property.ObjectFirst]
    distinct := by
      rw [TypeSet.forall_hasObject_iff]
      simp [T, main, inner, ObjectType.throughout_iff, ObjectType.Distinct]
    wellNamed := by
      simp [T, TypeSet.WellNamed, TypeDecl.isMain]
    nesting := by decide
  }
  refine TypeSet.ofText_printed hT ?_ ?_
  · exact .cons (.interface ⟨[], true⟩ (by decide)) (.cons (.unnamed main) .nil)
  · exact ⟨by decide, by decide, by decide⟩

end TypedFlags.Schema
