import Mathlib.Data.List.Sort
import Mathlib.Data.String.Basic
import TypedFlags.Proofs.Schema.Parsing
/-!
# What a syntax error lists

A text that breaks the grammar is refused at one place with a list of names: what was expected
there. The list is worth what it says about the grammar, so that is what is shown of it
(`TypeSet.ofTokens_unexpected`): a type set can start as the text does up to that place, and the
names are those of all tokens it can go on with, no fewer and no more, with `EOF` among them exactly
if it can also end there.

Two facts carry this, and neither mentions a whole text. At every draft the expectations are the
tokens that can be scanned (`Draft.exists_scan_iff`). And **no draft is a dead end**
(`Draft.completable`): whatever has been scanned can be completed to a type set, by closing
everything that is open. So what can be scanned next is what can come next in some type set.
-/

set_option autoImplicit false

namespace TypedFlags.Schema

/-! ## Kinds of tokens -/

/-- What a token is to the grammar. Single brackets are nothing to it. -/
def Token.kind? : Token → Option Expected
  | .typeKeyword => some .typeKeyword
  | .interfaceKeyword => some .interfaceKeyword
  | .primitive _ => some .primitiveType
  | .identifier _ => some .identifier
  | .leftBrace => some .leftBrace
  | .rightBrace => some .rightBrace
  | .leftBracket => none
  | .rightBracket => none
  | .arraySuffix => some .arraySuffix
  | .question => some .question
  | .comma => some .comma
  | .colon => some .colon
  | .equals => some .equals

/-- The end of the text is the one expectation that is no kind of token. -/
theorem Expected.exists_kind? (k : Expected) : k = .endOfText ∨ ∃ t : Token, t.kind? = some k := by
  cases k with
  | typeKeyword => exact .inr ⟨.typeKeyword, rfl⟩
  | interfaceKeyword => exact .inr ⟨.interfaceKeyword, rfl⟩
  | leftBrace => exact .inr ⟨.leftBrace, rfl⟩
  | rightBrace => exact .inr ⟨.rightBrace, rfl⟩
  | arraySuffix => exact .inr ⟨.arraySuffix, rfl⟩
  | question => exact .inr ⟨.question, rfl⟩
  | comma => exact .inr ⟨.comma, rfl⟩
  | colon => exact .inr ⟨.colon, rfl⟩
  | equals => exact .inr ⟨.equals, rfl⟩
  | identifier => exact .inr ⟨.identifier "", rfl⟩
  | primitiveType => exact .inr ⟨.primitive .boolean, rfl⟩
  | endOfText => exact .inl rfl

theorem Expected.name_injective : Function.Injective Expected.name := by
  intro j k h
  cases j <;> cases k <;> first | rfl | exact absurd h (by decide)

namespace Draft

/-! ## Expectations -/

section
variable {d : Draft} {t : Token}

theorem isSome_scan : (d.scan t).isSome = t.kind?.any (d.expected.contains ·) := by
  obtain ⟨types, stage⟩ := d
  -- Two tables are compared. What stands around an object matters only behind its brace, where the
  -- scan goes on from the closed draft.
  cases stage with
  | between => cases types <;> cases t <;> rfl
  | inside n outer ps place =>
    cases place with
    | afterBrace isArray => cases outer <;> cases isArray <;> cases t <;> rfl
    | _ => cases t <;> rfl
  | _ => cases t <;> rfl

/-- **The expectations are the tokens that can be scanned.** -/
theorem exists_scan_iff : (∃ e, d.scan t = some e) ↔ ∃ k ∈ t.kind?, k ∈ d.expected := by
  rw [← Option.isSome_iff_exists, isSome_scan, Option.any_eq_true]
  simp

theorem endOfText_mem_expected_iff : .endOfText ∈ d.expected ↔ d.Complete := by
  obtain ⟨types, stage⟩ := d
  cases stage with
  | between => cases types <;> simp [expected, Complete, closed]
  | inside n outer ps place =>
    cases place with
    | afterBrace isArray => cases outer <;> cases isArray <;> simp [expected, Complete, closed]
    | _ => simp [expected, Complete, closed]
  | _ => simp [expected, Complete, closed]

theorem nodup_expected : d.expected.Nodup := by
  obtain ⟨types, stage⟩ := d
  cases stage with
  | between => cases types <;> simp [expected]
  | inside n outer ps place =>
    cases place with
    | afterBrace isArray => cases outer <;> cases isArray <;> simp [expected]
    | _ => simp [expected]
  | _ => simp [expected]

end

/-! ## Completing a draft -/

/-- A type set can end at some draft behind this one. -/
def Completable (d : Draft) : Prop :=
  ∃ (ts : List Token) (e : Draft), ts.foldlM scan d = some e ∧ e.Complete

theorem Completable.of_scan {d e : Draft} (t : Token) (h : d.scan t = some e)
    (he : e.Completable) : d.Completable := by
  obtain ⟨ts, f, hs, hf⟩ := he
  exact ⟨t :: ts, f, scans_append (scans_singleton h) hs, hf⟩

section
variable (types : List TypeDecl) (n : String)

/-- Behind a brace, the objects around are closed one after the other. -/
theorem completable_afterBrace (outer : List Enclosing) (ps : List Property) (isArray : Bool) :
    Completable ⟨types, .inside n outer ps (.afterBrace isArray)⟩ := by
  induction outer generalizing ps isArray with
  | nil => exact ⟨[], _, rfl, by simp [Complete, closed]⟩
  | cons e outer ih =>
    refine .of_scan .rightBrace ?_
      (ih (e.properties ++ [e.heading.property (.object ⟨ps, isArray⟩)]) false)
    cases isArray <;> rfl

theorem completable_inside (outer : List Enclosing) (ps : List Property) (place : Place) :
    Completable ⟨types, .inside n outer ps place⟩ := by
  have hbrace (qs : List Property) := completable_afterBrace types n outer qs false
  have hcolon (h : Heading) : Completable ⟨types, .inside n outer ps (.afterColon h)⟩ :=
    .of_scan (.primitive .boolean) rfl (.of_scan .rightBrace rfl (hbrace _))
  cases place with
  | start => exact .of_scan .rightBrace rfl (hbrace ps)
  | afterComma => exact .of_scan (.identifier "a") rfl (.of_scan .colon rfl (hcolon _))
  | afterName name => exact .of_scan .colon rfl (hcolon _)
  | afterQuestion name => exact .of_scan .colon rfl (hcolon _)
  | afterColon h => exact hcolon h
  | afterType p => exact .of_scan .rightBrace rfl (hbrace _)
  | afterProperty => exact .of_scan .rightBrace rfl (hbrace ps)
  | afterBrace isArray => exact completable_afterBrace types n outer ps isArray

end

/-- **No draft is a dead end.** -/
theorem completable (d : Draft) : d.Completable := by
  obtain ⟨types, stage⟩ := d
  have hbody (n : String) : Completable ⟨types, .body n⟩ :=
    .of_scan .leftBrace rfl (completable_inside types n [] [] .start)
  cases stage with
  | between => exact .of_scan .leftBrace rfl (completable_inside types "" [] [] .start)
  | afterType => exact .of_scan (.identifier "A") rfl (.of_scan .equals rfl (hbody "A"))
  | afterTypeName n => exact .of_scan .equals rfl (hbody n)
  | afterInterface => exact .of_scan (.identifier "A") rfl (hbody "A")
  | body n => exact hbody n
  | inside n outer ps place => exact completable_inside types n outer ps place

end Draft

/-! ## What may follow in the grammar -/

/-- The grammar yields a token sequence. -/
def Derivable (ts : List Token) : Prop := ∃ T : TypeSet, T.Yields ts

theorem derivable_iff {ts : List Token} :
    Derivable ts ↔ ∃ d, ts.foldlM Draft.scan Draft.empty = some d ∧ d.Complete := by
  constructor
  · rintro ⟨T, hT⟩
    obtain ⟨U, hU, hof⟩ := hT.exists_objectFirst
    obtain ⟨hne, d, hd, hc⟩ := TypeSet.yields_iff_scans.1 ⟨hU, hof⟩
    exact ⟨d, hd, by rw [hc], by rwa [hc]⟩
  · rintro ⟨d, hd, hst, hty⟩
    have hc : d.closed = ⟨d.closed.types, .between⟩ := by rw [← hst]
    exact ⟨_, ((TypeSet.yields_iff_scans (T := ⟨d.closed.types⟩)).2 ⟨hty, d, hd, hc⟩).1⟩

section
variable {d : Draft} {us : List Token} (hd : us.foldlM Draft.scan Draft.empty = some d)
include hd

theorem derivable_append_iff {ws : List Token} :
    Derivable (us ++ ws) ↔ ∃ e, ws.foldlM Draft.scan d = some e ∧ e.Complete := by
  rw [derivable_iff, List.foldlM_append, hd]
  rfl

theorem derivable_iff_endOfText : Derivable us ↔ .endOfText ∈ d.expected := by
  rw [derivable_iff, hd, Draft.endOfText_mem_expected_iff]
  simp

/-- What can be scanned next can come next in some type set. -/
theorem exists_derivable_iff {t : Token} :
    (∃ ws, Derivable (us ++ t :: ws)) ↔ ∃ k ∈ t.kind?, k ∈ d.expected := by
  simp only [derivable_append_iff hd, List.foldlM_cons]
  rw [← Draft.exists_scan_iff]
  constructor
  · rintro ⟨ws, e, hs, -⟩
    obtain ⟨f, hf, -⟩ := Option.bind_eq_some_iff.1 hs
    exact ⟨f, hf⟩
  · rintro ⟨f, hf⟩
    obtain ⟨ws, e, hs, he⟩ := f.completable
    exact ⟨ws, e, by rw [hf]; exact hs, he⟩

end

/-! ## The message -/

/-- The names in the message of a syntax error, in order. -/
def expectedNames (ks : List Expected) : List String := (ks.map Expected.name).mergeSort

theorem mem_expectedNames_iff {ks : List Expected} {k : Expected} :
    k.name ∈ expectedNames ks ↔ k ∈ ks := by
  rw [expectedNames, List.mem_mergeSort, List.mem_map_of_injective Expected.name_injective]

theorem pairwise_expectedNames {ks : List Expected} (h : ks.Nodup) :
    (expectedNames ks).Pairwise (· < ·) := by
  have hle : (expectedNames ks).Pairwise (· ≤ ·) := List.pairwise_mergeSort' (· ≤ ·) _
  have hne : (expectedNames ks).Nodup :=
    (List.mergeSort_perm _ _).nodup_iff.2 (h.map Expected.name_injective)
  exact (hle.and hne).imp fun h => lt_of_le_of_ne h.1 h.2

/-- The given names explain why a text that starts with the tokens `us` goes wrong before `vs`. -/
structure Explains (us vs : List Token) (names : List String) : Prop where
  /-- The tokens before the place are the start of a derivable sequence. -/
  viable : ∃ ws, Derivable (us ++ ws)
  /-- The names are in order, and no two are equal. -/
  sorted : names.Pairwise (· < ·)
  /-- The names are those of kinds of tokens, and `EOF`. -/
  named : ∀ name ∈ names, name = "EOF" ∨ ∃ t : Token, ∃ k ∈ t.kind?, name = k.name
  /-- A token can follow in a derivable sequence exactly if the name of its kind is listed. -/
  follows : ∀ t, (∃ ws, Derivable (us ++ t :: ws)) ↔ ∃ k ∈ t.kind?, k.name ∈ names
  /-- The sequence can end at the place exactly if `EOF` is listed. -/
  ends : Derivable us ↔ "EOF" ∈ names
  /-- What stands at the place is not listed. -/
  refused : (∀ t ∈ vs.head?, ∀ k ∈ t.kind?, k.name ∉ names) ∧ (vs = [] → "EOF" ∉ names)

theorem typeNamesFault?_ne_unexpected {types : List TypeDecl} {expected : List Expected} :
    typeNamesFault? types ≠ some (.unexpected expected) := by
  unfold typeNamesFault?
  split_ifs <;> simp

/-- Faulty names are reported before what was expected. -/
theorem Draft.refusal_eq_unexpected {d : Draft} {ks ks' : List Expected}
    (h : d.refusal ks = .unexpected ks') :
    ks' = ks ∧ (d.stage = .between → typeNamesFault? d.types = none) := by
  obtain ⟨types, stage⟩ := d
  cases stage with
  | between =>
    cases hn : typeNamesFault? types with
    | none => simpa [refusal, hn, eq_comm] using h
    | some f =>
      have hf : f = .unexpected ks' := by simpa [refusal, hn] using h
      exact absurd (hf ▸ hn) typeNamesFault?_ne_unexpected
  | _ => simpa [refusal, eq_comm] using h

/-- A draft that fails for what was expected there can neither be scanned on nor end a type set. -/
theorem Draft.Fails.unexpected {d : Draft} {ks : List Expected} {vs : List Token}
    (h : d.Fails (.unexpected ks) vs) :
    ks = d.expected ∧ (∀ t ∈ vs.head?, d.scan t = none) ∧ (vs = [] → ¬ d.Complete) := by
  obtain ⟨-, hs | ⟨-, hstuck, hr⟩⟩ := Draft.fails_iff.1 h
  · cases (Draft.settle_eq_error_iff.1 hs).1
  · obtain ⟨rfl, hnames⟩ := Draft.refusal_eq_unexpected hr
    refine ⟨rfl, ?_, ?_⟩
    · intro t ht
      cases vs with
      | nil => cases ht
      | cons u vs => cases ht; exact hstuck
    · rintro rfl hc
      exact hstuck ⟨hc, hnames hc.1⟩

/-- **A syntax error is placed and explained exactly.** -/
theorem TypeSet.ofTokens_unexpected {ts : List Token} {expected : List Expected} {unread : Nat}
    (h : TypeSet.ofTokens ts = .error (.unexpected expected, unread)) :
    ∃ us vs names, us ++ vs = ts ∧ vs.length = unread ∧
      (Fault.unexpected expected).detail = "expected one of: " ++ ", ".intercalate names ∧
      Explains us vs names := by
  obtain ⟨us, vs, d, rfl, hlen, hsteps, hf⟩ := Draft.run_eq_error_iff.1 h
  obtain ⟨hd, -⟩ := Draft.steps_iff_scans.1 ⟨Draft.throughout_empty, hsteps⟩
  obtain ⟨rfl, hnext, hend⟩ := hf.unexpected
  refine ⟨us, vs, expectedNames d.expected, rfl, hlen, rfl, ?_⟩
  have heof : "EOF" = Expected.name .endOfText := rfl
  have hlisted {t : Token} : (∃ k ∈ t.kind?, k.name ∈ expectedNames d.expected) ↔
      ∃ k ∈ t.kind?, k ∈ d.expected := by
    simp only [mem_expectedNames_iff]
  exact {
    viable := by
      obtain ⟨ws, e, hs, he⟩ := d.completable
      exact ⟨ws, (derivable_append_iff hd).2 ⟨e, hs, he⟩⟩
    sorted := pairwise_expectedNames Draft.nodup_expected
    named := by
      intro name hname
      rw [expectedNames, List.mem_mergeSort] at hname
      obtain ⟨k, -, rfl⟩ := List.mem_map.1 hname
      obtain rfl | ⟨t, ht⟩ := k.exists_kind?
      · exact .inl heof.symm
      · exact .inr ⟨t, k, ht, rfl⟩
    follows := fun t => (exists_derivable_iff hd).trans hlisted.symm
    ends := by rw [heof, mem_expectedNames_iff, derivable_iff_endOfText hd]
    refused := by
      constructor
      · intro t ht k hk hmem
        obtain ⟨e, he⟩ := Draft.exists_scan_iff.2 (hlisted.1 ⟨k, hk, hmem⟩)
        rw [hnext t ht] at he
        cases he
      · intro hvs hmem
        rw [heof, mem_expectedNames_iff, Draft.endOfText_mem_expected_iff] at hmem
        exact hend hvs hmem }

/-- Behind an inline object, its suffix is expected next to what may follow the property. -/
theorem TypeSet.ofTokens_unexpected_behindObject :
    TypeSet.ofTokens [.leftBrace, .identifier "a", .colon, .leftBrace, .rightBrace,
        .identifier "b"] = .error (.unexpected [.arraySuffix, .comma, .rightBrace], 1) ∧
      ∃ us vs names,
        us ++ vs = [.leftBrace, .identifier "a", .colon, .leftBrace, .rightBrace,
          .identifier "b"] ∧ vs.length = 1 ∧
        (Fault.unexpected [.arraySuffix, .comma, .rightBrace]).detail =
          "expected one of: " ++ ", ".intercalate names ∧ Explains us vs names :=
  ⟨rfl, TypeSet.ofTokens_unexpected rfl⟩

end TypedFlags.Schema
