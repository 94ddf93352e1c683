import Mathlib.Data.List.Chain
import Mathlib.Data.List.TakeWhile
import TypedFlags.Proofs.Literal.Relaxed
/-!
# Strings in single quotes

Any string can be written between single quotes, with a backslash before each backslash and each
apostrophe; a double quote may have one or stand by itself. `singleQuoted` is that writing, and the
choice is made anew at every double quote.

Putting it in double quotes takes three steps: the backslashes before apostrophes go, those before
double quotes go, and then every double quote gets one. **The second step does not ask whose the
backslash is.** Where a double quote stands by itself behind an escaped backslash, the second half of
that escape is taken for the escape of the quote; in the result the string ends there, and what is
behind it is refused. Nowhere else does anything go wrong (`read_singleQuoted`): a writing without
such a place (`Apart`) becomes the compact text of the string (`requote_of_apart`).
-/

set_option autoImplicit false

namespace TypedFlags.Literal

open Json (StringText Spells)

/-! ## The writing -/

/-- A character of a string as it stands between single quotes. A double quote may stand there by
    itself, if the flag says so. -/
def singleEscape : Char × Bool → List Char
  | (c, raw) => if c = '\\' ∨ c = '\'' ∨ (c = '"' ∧ raw = false) then ['\\', c] else [c]

/-- A string in single quotes. -/
def singleQuoted (cs : List (Char × Bool)) : List Char :=
  '\'' :: (cs.flatMap singleEscape ++ ['\''])

/-- The string that is written so. -/
def written (cs : List (Char × Bool)) : List Char := cs.map (·.1)

/-- A double quote does not stand by itself behind a backslash of the string. -/
def Apart (c d : Char × Bool) : Prop := c.1 = '\\' → d ≠ ('"', true)

instance (c d : Char × Bool) : Decidable (Apart c d) :=
  inferInstanceAs (Decidable (_ → _))

/-! ## What is left of the escapes -/

/-- A character when the apostrophes stand by themselves. -/
def quoteEscape : Char × Bool → List Char
  | (c, raw) => if c = '\\' ∨ (c = '"' ∧ raw = false) then ['\\', c] else [c]

/-- A character when both kinds of quotes stand by themselves. -/
def backslashEscape (c : Char) : List Char := if c = '\\' then ['\\', '\\'] else [c]

theorem unescapeQuote_escape {q c : Char} {text : List Char} (hc : c ≠ q)
    (h : c ≠ '\\' ∨ text.head? ≠ some q) :
    unescapeQuote q ('\\' :: c :: text) = '\\' :: c :: unescapeQuote q text := by
  rw [unescapeQuote_cons (.inr (by simpa using hc)), unescapeQuote_cons h]

theorem unescapeQuote_quote (q : Char) (text : List Char) :
    unescapeQuote q ('\\' :: q :: text) = q :: unescapeQuote q text := by
  rw [unescapeQuote, if_pos ⟨rfl, rfl⟩]

theorem head?_singleEscape (cs : List (Char × Bool)) {tail : List Char}
    (ht : tail.head? ≠ some '\'') : (cs.flatMap singleEscape ++ tail).head? ≠ some '\'' := by
  cases cs with
  | nil => exact ht
  | cons c cs =>
    obtain ⟨c, raw⟩ := c
    unfold singleEscape
    by_cases hc : c = '\\' ∨ c = '\'' ∨ (c = '"' ∧ raw = false)
    · simp [hc]
    · rw [not_or, not_or] at hc
      simp [hc]

theorem unescapeQuote_singleEscape (cs : List (Char × Bool)) {tail : List Char}
    (ht : tail.head? ≠ some '\'') :
    unescapeQuote '\'' (cs.flatMap singleEscape ++ tail) =
      cs.flatMap quoteEscape ++ unescapeQuote '\'' tail := by
  induction cs with
  | nil => rfl
  | cons c cs ih =>
    obtain ⟨c, raw⟩ := c
    have hhead := head?_singleEscape cs ht
    rw [List.flatMap_cons, List.flatMap_cons, List.append_assoc, List.append_assoc, ← ih]
    by_cases hb : c = '\\'
    · subst hb
      exact unescapeQuote_escape (by decide) (.inr hhead)
    by_cases ha : c = '\''
    · subst ha
      exact unescapeQuote_quote '\'' _
    by_cases hq : c = '"' ∧ raw = false
    · obtain ⟨rfl, rfl⟩ := hq
      exact unescapeQuote_escape (by decide) (.inl (by decide))
    · have hs : singleEscape (c, raw) = [c] := by simp [singleEscape, hb, ha, hq]
      have he : quoteEscape (c, raw) = [c] := by simp [quoteEscape, hb, hq]
      rw [hs, he]
      exact unescapeQuote_cons (.inl hb)

theorem head?_quoteEscape {cs : List (Char × Bool)} {tail : List Char}
    (hq : ∀ c ∈ cs.head?, c ≠ ('"', true)) (ht : tail.head? ≠ some '"') :
    (cs.flatMap quoteEscape ++ tail).head? ≠ some '"' := by
  cases cs with
  | nil => exact ht
  | cons c cs =>
    obtain ⟨c, raw⟩ := c
    have hne : (c, raw) ≠ ('"', true) := hq _ rfl
    by_cases hc : c = '\\' ∨ (c = '"' ∧ raw = false)
    · simp [quoteEscape, hc]
    · have hc' : c ≠ '"' := by
        rintro rfl
        cases raw <;> simp_all
      have he : quoteEscape (c, raw) = [c] := by rw [quoteEscape, if_neg hc]
      simp [he, hc']

theorem unescapeQuote_quoteEscape {cs : List (Char × Bool)} (h : cs.IsChain Apart)
    {tail : List Char} (ht : tail.head? ≠ some '"') :
    unescapeQuote '"' (cs.flatMap quoteEscape ++ tail) =
      (written cs).flatMap backslashEscape ++ unescapeQuote '"' tail := by
  induction cs with
  | nil => rfl
  | cons c cs ih =>
    obtain ⟨c, raw⟩ := c
    obtain ⟨hnext, hchain⟩ := List.isChain_cons.1 h
    rw [written, List.map_cons, List.flatMap_cons, List.flatMap_cons, List.append_assoc,
      List.append_assoc, ← written, ← ih hchain]
    by_cases hb : c = '\\'
    · subst hb
      -- Only here can a backslash stand before a quote that is not its own.
      have hhead := head?_quoteEscape (fun d hd => hnext d hd rfl) ht
      exact unescapeQuote_escape (by decide) (.inr hhead)
    have hs : backslashEscape c = [c] := by simp [backslashEscape, hb]
    rw [hs]
    by_cases hq : c = '"' ∧ raw = false
    · obtain ⟨rfl, rfl⟩ := hq
      exact unescapeQuote_quote '"' _
    · have he : quoteEscape (c, raw) = [c] := by simp [quoteEscape, hb, hq]
      rw [he]
      exact unescapeQuote_cons (.inl hb)

theorem escapeDouble_append (s t : List Char) :
    escapeDouble (s ++ t) = escapeDouble s ++ escapeDouble t := List.flatMap_append

theorem escape_of_printable {c : Char} (hc : 0x20 ≤ c.toNat) :
    Json.escape c = if c = '"' ∨ c = '\\' then ['\\', c] else [c] := by
  unfold Json.escape
  split <;> simp_all

theorem escapeDouble_backslashEscape {s : List Char} (hs : ∀ c ∈ s, 0x20 ≤ c.toNat) :
    escapeDouble (s.flatMap backslashEscape) = s.flatMap Json.escape := by
  induction s with
  | nil => rfl
  | cons c s ih =>
    obtain ⟨hc, hs⟩ := List.forall_mem_cons.1 hs
    rw [List.flatMap_cons, List.flatMap_cons, escapeDouble_append, ih hs, escape_of_printable hc]
    congr 1
    by_cases hb : c = '\\'
    · subst hb
      rfl
    · by_cases hq : c = '"' <;> simp [backslashEscape, escapeDouble, hb, hq]

/-! ## The text in double quotes -/

theorem requote_of_apart {cs : List (Char × Bool)} (h : cs.IsChain Apart)
    (hs : ∀ c ∈ written cs, 0x20 ≤ c.toNat) :
    requote (cs.flatMap singleEscape) = (written cs).flatMap Json.escape := by
  have hnil {q : Char} : ([] : List Char).head? ≠ some q := by simp
  have hfirst := unescapeQuote_singleEscape cs (@hnil '\'')
  have hsecond := unescapeQuote_quoteEscape h (@hnil '"')
  simp only [List.append_nil, unescapeQuote] at hfirst hsecond
  rw [requote, hfirst, hsecond, escapeDouble_backslashEscape hs]

/-- A string that is not written apart has a first place at which it is not. -/
theorem exists_first_not_apart {cs : List (Char × Bool)} (h : ¬ cs.IsChain Apart) :
    ∃ before raw after, cs = before ++ ('\\', raw) :: ('"', true) :: after ∧
      before.IsChain Apart := by
  induction cs with
  | nil => exact absurd .nil h
  | cons c cs ih =>
    rw [List.isChain_cons] at h
    by_cases hnext : ∀ d ∈ cs.head?, Apart c d
    · obtain ⟨before, raw, after, rfl, hbefore⟩ := ih fun hcs => h ⟨hnext, hcs⟩
      refine ⟨c :: before, raw, after, rfl, List.isChain_cons.2 ⟨?_, hbefore⟩⟩
      intro d hd
      apply hnext
      rw [List.head?_append, hd]
      rfl
    · cases cs with
      | nil => simp at hnext
      | cons d cs =>
        obtain ⟨hc, hd⟩ : c.1 = '\\' ∧ d = ('"', true) := by simpa [Apart] using hnext
        obtain ⟨c, raw⟩ := c
        subst hc hd
        exact ⟨[], raw, cs, rfl, .nil⟩

theorem requote_of_not_apart {cs : List (Char × Bool)} (h : ¬ cs.IsChain Apart)
    (hs : ∀ c ∈ written cs, 0x20 ≤ c.toNat) :
    ∃ (s rest : List Char), requote (cs.flatMap singleEscape) = s.flatMap Json.escape ++ '"' :: rest := by
  obtain ⟨before, raw, after, rfl, hbefore⟩ := exists_first_not_apart h
  have hwritten : ∀ c ∈ written before, 0x20 ≤ c.toNat := by
    intro c hc
    exact hs c (by rw [written, List.map_append]; exact List.mem_append_left _ hc)
  generalize htail : after.flatMap singleEscape = tail
  have htext : (before ++ ('\\', raw) :: ('"', true) :: after).flatMap singleEscape =
      before.flatMap singleEscape ++ '\\' :: '\\' :: '"' :: tail := by
    rw [← htail]
    simp [singleEscape]
  have hfirst : unescapeQuote '\'' ('\\' :: '\\' :: '"' :: tail) =
      '\\' :: '\\' :: '"' :: unescapeQuote '\'' tail := by
    rw [unescapeQuote_escape (by decide) (.inr (by simp)), unescapeQuote_cons (.inl (by decide))]
  -- The second backslash of the pair is taken for the escape of the quote behind it.
  have hsecond (text : List Char) : unescapeQuote '"' ('\\' :: '\\' :: '"' :: text) =
      '\\' :: '"' :: unescapeQuote '"' text := by
    rw [unescapeQuote_cons (.inr (by simp)), unescapeQuote_quote]
  refine ⟨written before ++ ['\\'], escapeDouble (unescapeQuote '"' (unescapeQuote '\'' tail)), ?_⟩
  rw [requote, htext, unescapeQuote_singleEscape before (by simp), hfirst,
    unescapeQuote_quoteEscape hbefore (by simp), hsecond, escapeDouble_append,
    escapeDouble_backslashEscape hwritten, List.flatMap_append, List.append_assoc]
  rfl

/-! ## Reading it -/

theorem quotedBody_singleEscape (cs : List (Char × Bool)) (hs : ∀ c ∈ written cs, 0x20 ≤ c.toNat) :
    quotedBody '\'' (cs.flatMap singleEscape ++ ['\'']) = some (cs.flatMap singleEscape, []) := by
  induction cs with
  | nil => exact quotedBody_quote []
  | cons c cs ih =>
    obtain ⟨c, raw⟩ := c
    obtain ⟨hc, hs⟩ := List.forall_mem_cons.1 hs
    have hline : c ≠ '\n' := by
      rintro rfl
      exact absurd hc (by decide : ¬ 0x20 ≤ '\n'.toNat)
    rw [List.flatMap_cons, List.append_assoc]
    by_cases he : c = '\\' ∨ c = '\'' ∨ (c = '"' ∧ raw = false)
    · rw [singleEscape, if_pos he, List.cons_append, List.singleton_append,
        quotedBody_escape _ (by decide) hline, ih hs]
      rfl
    · rw [not_or, not_or] at he
      rw [singleEscape, if_neg (by simp [he]), List.singleton_append,
        quotedBody_plain _ he.2.1 he.1, ih hs]
      rfl

theorem singleQuotes_singleQuoted (cs : List (Char × Bool))
    (hs : ∀ c ∈ written cs, 0x20 ≤ c.toNat) :
    singleQuotes.apply (singleQuoted cs) =
      '"' :: (requote (cs.flatMap singleEscape) ++ ['"']) := by
  have hfound : singleQuoted? (singleQuoted cs) =
      some ('"' :: requote (cs.flatMap singleEscape) ++ ['"'], []) := by
    simp [singleQuoted, singleQuoted?, quotedBody_singleEscape cs hs]
  have happly : singleQuotes.apply (singleQuoted cs) =
      '"' :: requote (cs.flatMap singleEscape) ++ ['"'] ++ singleQuotes.apply [] :=
    apply_of_other (by decide) hfound
  rwa [Replacement.apply_nil, List.append_nil] at happly

theorem stringText_of_spells {text s : List Char} (h : Spells text s) : StringText text := by
  obtain ⟨body, hbody, he⟩ := Json.stringBody_eq_ok (h.run [])
  exact List.append_cancel_right he ▸ hbody

/-- Behind a string at its front a text is normalized by itself. -/
theorem normalize_of_string {text : List Char} {s rest : List Char}
    (h : singleQuotes.apply text = '"' :: (s.flatMap Json.escape ++ '"' :: rest)) :
    normalize text = '"' :: (s.flatMap Json.escape ++
      '"' :: trailingCommas.apply (bareKeys.apply rest)) := by
  have hbody := stringText_of_spells (Json.spells_flatMap_escape s)
  rw [normalize, h, bareKeys, apply_string hbody, trailingCommas, apply_string hbody]

section
variable {other : List Char → Option (List Char × List Char)}
  {shorter : ∀ {text out rest : List Char}, other text = some (out, rest) →
    rest.length < text.length}

/-- A replacement that takes no double quote away leaves one in the text. -/
theorem quote_mem_apply (hother : ∀ {text out rest : List Char}, other text = some (out, rest) →
      '"' ∈ text → '"' ∈ out ++ rest) {text : List Char} (h : '"' ∈ text) :
    '"' ∈ (outsideStrings other shorter).apply text := by
  fun_induction Replacement.apply (outsideStrings other shorter) text with
  | case1 => cases h
  | case2 c tail out rest hr ih =>
    rw [List.mem_append]
    rcases Option.or_eq_some_iff.1 hr with hd | ⟨-, ho⟩
    · left
      unfold doubleQuoted? at hd
      split at hd
      · obtain ⟨_, -, he⟩ := Option.map_eq_some_iff.1 hd
        cases he
        exact List.mem_append_left _ List.mem_cons_self
      · cases hd
    · exact (List.mem_append.1 (hother ho h)).imp_right ih
  | case3 c tail hr ih =>
    rcases List.mem_cons.1 h with rfl | hm
    · exact List.mem_cons_self
    · exact List.mem_cons_of_mem _ (ih hm)

end

theorem quote_mem_of_bareKey? {text out rest : List Char} (h : bareKey? text = some (out, rest)) :
    '"' ∈ out := by
  unfold bareKey? at h
  split at h
  · cases h
  split at h
  · obtain ⟨⟨out', rest'⟩, hk, he⟩ := Option.map_eq_some_iff.1 h
    cases he
    unfold keyAndColon? at hk
    split at hk
    · cases hk
    split at hk
    · split at hk
      · cases hk
        simp
      · cases hk
    · cases hk
  · cases h

theorem quote_mem_of_trailingComma? {text out rest : List Char}
    (h : trailingComma? text = some (out, rest)) (hq : '"' ∈ text) : '"' ∈ out ++ rest := by
  unfold trailingComma? at h
  split at h
  · next tail =>
    split at h
    · cases h
    next c after hgap =>
    split at h
    · cases h
      have htail : gap tail ++ [c] ++ rest = tail := by
        rw [List.append_assoc, List.singleton_append, ← hgap, gap_append_afterGap]
      rw [htail]
      exact (List.mem_cons.1 hq).resolve_left (by decide)
    · cases h
  · cases h

/-- A text with a string at its front and a quote behind it is no document. -/
theorem readValue_of_string (s : List Char) {rest : List Char} (h : '"' ∈ rest) :
    ∃ e, Json.readValue (String.ofList ('"' :: (s.flatMap Json.escape ++ '"' :: rest))) = .error e ∧
      e.fault = .trailingCharacters := by
  have hstring := (Json.Writes.string (Json.spells_flatMap_escape s) rest).run
    (d := Json.maxDepth) (Nat.zero_le _) (Json.within_nil _)
  have hread : Json.readWithin Json.maxDepth [] ('"' :: (s.flatMap Json.escape ++ '"' :: rest)) =
      .error (.over .trailingCharacters (Json.dropBlanks rest)) := by
    rw [Json.readWithin, hstring]
    simp only [bind, Except.bind]
    split
    · next hnil =>
      rw [Json.dropBlanks, List.dropWhile_eq_nil_iff] at hnil
      exact absurd (hnil _ h) (by decide)
    · rfl
  generalize '"' :: (s.flatMap Json.escape ++ '"' :: rest) = text at hread
  refine ⟨Json.Stop.locate text (.over .trailingCharacters (Json.dropBlanks rest)), ?_, rfl⟩
  rw [Json.readValue, Json.read, Json.readOutline, String.toList_ofList, hread]
  rfl

/-- A string in double quotes, with nothing behind it, is read as it is. -/
theorem readValue_quoted (s : List Char) :
    Json.readValue (String.ofList ('"' :: (s.flatMap Json.escape ++ ['"']))) =
      .ok (.string (String.ofList s)) := by
  have htext : Json.IsText (.string (String.ofList s)) ('"' :: (s.flatMap Json.escape ++ ['"'])) :=
    ⟨[], .string (Json.spells_flatMap_escape s) [], .none _⟩
  exact Json.IsText.readValue (by rwa [String.toList_ofList]) (Nat.zero_le _)

theorem read_of_apart {cs : List (Char × Bool)} (hs : ∀ c ∈ written cs, 0x20 ≤ c.toNat)
    (h : cs.IsChain Apart) :
    Literal.read (String.ofList (singleQuoted cs)) = .ok (.string (String.ofList (written cs))) := by
  have hsingle := singleQuotes_singleQuoted cs hs
  rw [requote_of_apart h hs] at hsingle
  have hnormal := normalize_of_string hsingle
  rw [bareKeys, trailingCommas, Replacement.apply_nil, Replacement.apply_nil] at hnormal
  rw [Literal.read, String.toList_ofList, hnormal, readValue_quoted]

theorem read_of_not_apart {cs : List (Char × Bool)} (hs : ∀ c ∈ written cs, 0x20 ≤ c.toNat)
    (h : ¬ cs.IsChain Apart) :
    ∃ e, Literal.read (String.ofList (singleQuoted cs)) = .error e ∧
      e.fault = .trailingCharacters := by
  obtain ⟨s, rest, hrequote⟩ := requote_of_not_apart h hs
  have hsingle := singleQuotes_singleQuoted cs hs
  rw [hrequote, List.append_assoc, List.cons_append] at hsingle
  have hquote : '"' ∈ trailingCommas.apply (bareKeys.apply (rest ++ ['"'])) :=
    quote_mem_apply quote_mem_of_trailingComma?
      (quote_mem_apply (fun hb _ => List.mem_append_left _ (quote_mem_of_bareKey? hb)) (by simp))
  rw [Literal.read, String.toList_ofList, normalize_of_string hsingle]
  exact readValue_of_string s hquote

/-- **A string in single quotes keeps its meaning exactly if no double quote stands by itself behind
    a backslash of it**, and is refused otherwise. -/
theorem read_singleQuoted {cs : List (Char × Bool)} (hs : ∀ c ∈ written cs, 0x20 ≤ c.toNat) :
    (cs.IsChain Apart → Literal.read (String.ofList (singleQuoted cs)) =
        .ok (.string (String.ofList (written cs)))) ∧
      (¬ cs.IsChain Apart → ∃ e, Literal.read (String.ofList (singleQuoted cs)) = .error e ∧
        e.fault = .trailingCharacters) :=
  ⟨read_of_apart hs, read_of_not_apart hs⟩

/-- Runs of backslashes before both kinds of quotes, and a double quote in both ways. -/
theorem read_singleQuoted_runs :
    let cs := [('\\', false), ('\\', false), ('\'', false), ('"', true), ('\\', false), ('"', false)]
    String.ofList (singleQuoted cs) = "'\\\\\\\\\\'\"\\\\\\\"'" ∧
      (∀ c ∈ written cs, 0x20 ≤ c.toNat) ∧ cs.IsChain Apart ∧
      Literal.read (String.ofList (singleQuoted cs)) =
        .ok (.string (String.ofList (written cs))) := by
  intro cs
  have hs : ∀ c ∈ written cs, 0x20 ≤ c.toNat := by simp [cs, written]
  have hapart : cs.IsChain Apart := by decide
  exact ⟨by decide, hs, hapart, (read_singleQuoted hs).1 hapart⟩

/-- A backslash and a double quote behind it that stands by itself. -/
theorem singleQuoted_refused :
    let cs := [('\\', false), ('"', true)]
    String.ofList (singleQuoted cs) = "'\\\\\"'" ∧ (∀ c ∈ written cs, 0x20 ≤ c.toNat) ∧
      Literal.read (String.ofList (singleQuoted cs)) ≠
        .ok (.string (String.ofList (written cs))) := by
  intro cs
  have hs : ∀ c ∈ written cs, 0x20 ≤ c.toNat := by simp [cs, written]
  refine ⟨by decide, hs, ?_⟩
  obtain ⟨e, he, -⟩ := read_of_not_apart hs (by decide)
  simp [he]

end TypedFlags.Literal
