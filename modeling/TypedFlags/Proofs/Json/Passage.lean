import TypedFlags.Json.Reader
import TypedFlags.Proofs.Except
/-!
# What stands outside the strings of a document

A reading that succeeds takes the text apart into strings, blanks, commas, colons, closing brackets
and other signs. `Passes` records such a passage over a text together with the one thing about it
that is not local to a character: what stood before, blanks aside. A colon comes behind a string and
nothing else, and no bracket is closed behind a comma.

**These two facts are all that the nesting of a document leaves in the flat text**, and they hold
for every text that is read (`passes_of_readValue`). The passage over a value may start behind
anything, and does not end behind a comma; so passages over values are put together to passages over
arrays and objects, whatever their depth.
-/

set_option autoImplicit false

namespace TypedFlags.Json

/-! ## Passages -/

/-- The contents of a string as they are written: a backslash takes the next character with it, and
    that is no line end. -/
inductive StringText : List Char → Prop
  | nil : StringText []
  | plain {c : Char} {text : List Char} (hq : c ≠ '"') (hb : c ≠ '\\') (h : StringText text) :
      StringText (c :: text)
  | escape {c : Char} {text : List Char} (hc : c ≠ '\n') (h : StringText text) :
      StringText ('\\' :: c :: text)

/-- The characters of words and numbers, and opening brackets. -/
def isSign (c : Char) : Bool :=
  c.isAlphanum || c = '+' || c = '-' || c = '.' || c = '[' || c = '{'

/-- What stands before a place, blanks aside. -/
inductive Before where
  | comma
  | string
  | other

/-- The passage from one place of a text to a later one. -/
inductive Passes : Before → List Char → Before → List Char → Prop
  | refl (b : Before) (text : List Char) : Passes b text b text
  | blank {b b' : Before} {c : Char} {text rest : List Char} (hc : isBlank c = true)
      (h : Passes b text b' rest) : Passes b (c :: text) b' rest
  | string {b b' : Before} {body text rest : List Char} (hb : StringText body)
      (h : Passes .string text b' rest) : Passes b ('"' :: (body ++ '"' :: text)) b' rest
  | colon {b' : Before} {text rest : List Char} (h : Passes .other text b' rest) :
      Passes .string (':' :: text) b' rest
  | comma {b b' : Before} {text rest : List Char} (h : Passes .comma text b' rest) :
      Passes b (',' :: text) b' rest
  | close {b b' : Before} {c : Char} {text rest : List Char} (hc : c = ']' ∨ c = '}')
      (hb : b ≠ .comma) (h : Passes .other text b' rest) : Passes b (c :: text) b' rest
  | sign {b b' : Before} {c : Char} {text rest : List Char} (hc : isSign c = true)
      (h : Passes .other text b' rest) : Passes b (c :: text) b' rest

theorem Passes.trans {a b c : Before} {s t u : List Char} (h : Passes a s b t)
    (h' : Passes b t c u) : Passes a s c u := by
  induction h with
  | refl => exact h'
  | blank hc _ ih => exact .blank hc (ih h')
  | string hb _ ih => exact .string hb (ih h')
  | colon _ ih => exact .colon (ih h')
  | comma _ ih => exact .comma (ih h')
  | close hc hb _ ih => exact .close hc hb (ih h')
  | sign hc _ ih => exact .sign hc (ih h')

theorem passes_blanks {b : Before} {text rest : List Char} (h : dropBlanks text = rest) :
    Passes b text b rest := by
  subst h
  induction text with
  | nil => exact .refl b []
  | cons c text ih =>
    unfold dropBlanks at ih ⊢
    rw [List.dropWhile_cons]
    split
    · next hc => exact .blank hc ih
    · exact .refl b _

theorem passes_signs {s : List Char} (hs : ∀ c ∈ s, isSign c = true) (rest : List Char) :
    Passes .other (s ++ rest) .other rest := by
  induction s with
  | nil => exact .refl _ _
  | cons c s ih =>
    rw [List.forall_mem_cons] at hs
    exact .sign hs.1 (ih hs.2)

theorem passes_signs_of_ne_nil {b : Before} {s : List Char} (hs : ∀ c ∈ s, isSign c = true)
    (hne : s ≠ []) (rest : List Char) : Passes b (s ++ rest) .other rest := by
  cases s with
  | nil => exact absurd rfl hne
  | cons c s =>
    rw [List.forall_mem_cons] at hs
    exact .sign hs.1 (passes_signs hs.2 rest)

/-! ## Strings -/

theorem hexValue?_eq_some {c : Char} {n : Nat} (h : hexValue? c = some n) : c ≠ '"' ∧ c ≠ '\\' := by
  constructor
  · rintro rfl
    cases h
  · rintro rfl
    cases h

/-- Digits of an escape do not end a string. -/
theorem hexUnit_eq_ok {text rest : List Char} {n : Nat} (h : hexUnit text = .ok (n, rest)) :
    ∃ ds, text = ds ++ rest ∧ ∀ body, StringText body → StringText (ds ++ body) := by
  unfold hexUnit at h
  split at h
  · cases h
  · split at h
    · next a b c d tail _ =>
      split at h
      · next ha hb hc hd =>
        cases h
        obtain ⟨ha, ha'⟩ := hexValue?_eq_some ha
        obtain ⟨hb, hb'⟩ := hexValue?_eq_some hb
        obtain ⟨hc, hc'⟩ := hexValue?_eq_some hc
        obtain ⟨hd, hd'⟩ := hexValue?_eq_some hd
        refine ⟨[a, b, c, d], rfl, fun body hbody => ?_⟩
        exact .plain ha ha' (.plain hb hb' (.plain hc hc' (.plain hd hd' hbody)))
      · cases h
    · cases h

theorem pairCharacter_eq_ok {e : Char} {text rest : List Char}
    (h : pairCharacter e text = .ok rest) : text = e :: rest := by
  unfold pairCharacter at h
  split at h
  · cases h
  · split at h
    · next hc =>
      cases h
      rw [hc]
    · cases h

theorem unicodeEscape_eq_ok {text rest : List Char} {c : Char}
    (h : unicodeEscape text = .ok (c, rest)) :
    ∃ s, text = s ++ rest ∧ ∀ body, StringText body → StringText (s ++ body) := by
  obtain ⟨⟨first, rest₁⟩, h₁, hfirst⟩ := bind_eq_ok_iff.1 h
  obtain ⟨ds, rfl, hds⟩ := hexUnit_eq_ok h₁
  dsimp only at hfirst
  split at hfirst
  · cases hfirst
  · split at hfirst
    -- The first unit of a pair has the second one behind another `\u`.
    · obtain ⟨rest₂, h₂, hpair⟩ := bind_eq_ok_iff.1 hfirst
      obtain ⟨rest₃, h₃, hunit⟩ := bind_eq_ok_iff.1 hpair
      obtain ⟨⟨second, rest₄⟩, h₄, hsecond⟩ := bind_eq_ok_iff.1 hunit
      obtain rfl := pairCharacter_eq_ok h₂
      obtain rfl := pairCharacter_eq_ok h₃
      obtain ⟨es, rfl, hes⟩ := hexUnit_eq_ok h₄
      dsimp only at hsecond
      split at hsecond
      · rw [Except.ok.injEq, Prod.mk.injEq] at hsecond
        obtain ⟨-, rfl⟩ := hsecond
        refine ⟨ds ++ ('\\' :: 'u' :: es), by simp, fun body hbody => ?_⟩
        have hu : StringText ('\\' :: 'u' :: (es ++ body)) := .escape (by decide) (hes body hbody)
        simpa using hds _ hu
      · cases hsecond
    · cases hfirst
      exact ⟨ds, rfl, hds⟩

theorem escaped_eq_ok {text rest : List Char} {c : Char} (h : escaped text = .ok (c, rest)) :
    ∃ s, text = s ++ rest ∧ ∀ body, StringText body → StringText ('\\' :: (s ++ body)) := by
  unfold escaped at h
  split at h
  · cases h
  · next d tail =>
    split at h
    · next hd =>
      obtain ⟨s, rfl, hs⟩ := unicodeEscape_eq_ok h
      refine ⟨d :: s, rfl, fun body hbody => .escape ?_ (hs body hbody)⟩
      rw [hd]
      decide
    · split at h
      · next e he =>
        cases h
        refine ⟨[d], rfl, fun body hbody => .escape ?_ hbody⟩
        rintro rfl
        cases he
      · cases h

/-- **A string that is read is written between two quotes.** -/
theorem stringBody_eq_ok {text rest cs : List Char} (h : stringBody text = .ok (cs, rest)) :
    ∃ body, StringText body ∧ text = body ++ '"' :: rest := by
  fun_induction stringBody text generalizing cs rest with
  | case1 | case3 | case5 => cases h
  | case2 =>
    cases h
    exact ⟨[], .nil, rfl⟩
  | case4 tail c after he ih =>
    obtain ⟨⟨ds, rest'⟩, hd, he'⟩ := map_eq_ok_iff.1 h
    cases he'
    obtain ⟨body, hbody, rfl⟩ := ih hd
    obtain ⟨s, rfl, hs⟩ := escaped_eq_ok he
    exact ⟨'\\' :: (s ++ body), hs body hbody, by simp⟩
  | case6 c tail hq hb _ ih =>
    obtain ⟨⟨ds, rest'⟩, hd, he'⟩ := map_eq_ok_iff.1 h
    cases he'
    obtain ⟨body, hbody, rfl⟩ := ih hd
    exact ⟨c :: body, .plain hq hb hbody, rfl⟩

theorem passes_string {b : Before} {text rest cs : List Char}
    (h : stringBody text = .ok (cs, rest)) : Passes b ('"' :: text) .string rest := by
  obtain ⟨body, hbody, rfl⟩ := stringBody_eq_ok h
  exact .string hbody (.refl _ _)

/-! ## Words and numbers -/

theorem word_eq_ok {expected text rest : List Char} (h : word expected text = .ok rest) :
    text = expected ++ rest := by
  induction expected generalizing text with
  | nil =>
    cases h
    rfl
  | cons e expected ih =>
    cases text with
    | nil => cases h
    | cons c text =>
      unfold word at h
      split at h
      · next hc => rw [hc, ih h, List.cons_append]
      · cases h

theorem isSign_of_isDigit {c : Char} (h : c.isDigit = true) : isSign c = true := by
  simp [isSign, Char.isAlphanum, h]

theorem digits_eq {text ds rest : List Char} (h : digits text = (ds, rest)) :
    text = ds ++ rest ∧ ∀ c ∈ ds, isSign c = true := by
  simp only [digits, Prod.mk.injEq] at h
  obtain ⟨rfl, rfl⟩ := h
  refine ⟨List.takeWhile_append_dropWhile.symm, fun c hc => isSign_of_isDigit ?_⟩
  exact List.all_eq_true.1 List.all_takeWhile c hc

theorem passes_wholePart {b : Before} {text rest ds : List Char}
    (h : wholePart text = .ok (ds, rest)) : Passes b text .other rest := by
  unfold wholePart at h
  split at h
  · split at h
    · cases h
      exact .sign (by decide) (.refl _ _)
    · cases h
  · split at h
    · cases h
    · next hne hd =>
      cases h
      obtain ⟨rfl, hds⟩ := digits_eq hd
      exact passes_signs_of_ne_nil hds hne rest

theorem passes_fractionPart {text rest ds : List Char}
    (h : fractionPart text = .ok (ds, rest)) : Passes .other text .other rest := by
  unfold fractionPart at h
  split at h
  · split at h
    · cases h
    · next hd =>
      cases h
      obtain ⟨rfl, hds⟩ := digits_eq hd
      exact .sign (by decide) (passes_signs hds rest)
  · cases h
    exact .refl _ _

theorem passes_exponentSign (text : List Char) :
    Passes .other text .other (exponentSign text).2 := by
  unfold exponentSign
  split
  · exact .sign (by decide) (.refl _ _)
  · exact .sign (by decide) (.refl _ _)
  · exact .refl _ _

theorem passes_exponentPart {text rest : List Char} {e : Option (Bool × List Char)}
    (h : exponentPart text = .ok (e, rest)) : Passes .other text .other rest := by
  unfold exponentPart at h
  split at h
  · cases h
    exact .refl _ _
  · next c tail =>
    split at h
    · next hc =>
      have hsign : isSign c = true := by rcases hc with rfl | rfl <;> decide
      split at h
      next negative signed hs =>
      split at h
      · cases h
      · next hd =>
        cases h
        obtain ⟨rfl, hds⟩ := digits_eq hd
        have hpass := passes_exponentSign tail
        rw [hs] at hpass
        exact .sign hsign (hpass.trans (passes_signs hds rest))
    · cases h
      exact .refl _ _

theorem passes_number {b : Before} {negative : Bool} {text rest : List Char} {n : Number}
    (h : readNumber negative text = .ok (n, rest)) : Passes b text .other rest := by
  obtain ⟨⟨m, rest'⟩, hm, hvalue⟩ := bind_eq_ok_iff.1 h
  obtain ⟨value, -, hv⟩ := bind_eq_ok_iff.1 hvalue
  cases hv
  obtain ⟨⟨whole, text₁⟩, hw, hparts⟩ := bind_eq_ok_iff.1 hm
  obtain ⟨⟨fraction, text₂⟩, hf, hpart⟩ := bind_eq_ok_iff.1 hparts
  obtain ⟨⟨exponent, text₃⟩, he, hr⟩ := bind_eq_ok_iff.1 hpart
  cases hr
  exact (passes_wholePart hw).trans ((passes_fractionPart hf).trans (passes_exponentPart he))

/-! ## Values -/

/-- A reader that passes over what it reads, behind anything, and does not end behind a comma. -/
def Reader.PassesValues (item : Reader Json) : Prop :=
  ∀ {b : Before} {text rest : List Char} {v : Json}, item.run text = .ok (v, rest) →
    ∃ b', b' ≠ .comma ∧ Passes b text b' rest

section
variable {item : Reader Json} {wanted : String → Bool}

theorem passes_items (hi : item.PassesValues) {b : Before} {text rest : List Char}
    {vs : List Json} (h : items item text = .ok (vs, rest)) : Passes b text .other rest := by
  fun_induction items item text generalizing b vs rest with
  | case1 | case2 | case4 | case5 | case7 => cases h
  | case3 text v after hv tail hd =>
    cases h
    obtain ⟨b', hb', hpass⟩ := hi hv
    have hclose : Passes b' (']' :: tail) .other tail := .close (.inl rfl) hb' (.refl _ _)
    exact hpass.trans ((passes_blanks hd).trans hclose)
  -- The comma is behind the value just read, and the next item may start behind a comma.
  | case6 text v after hv tail _ _ hd _ ih =>
    obtain ⟨⟨us, rest'⟩, ht, he⟩ := map_eq_ok_iff.1 h
    cases he
    obtain ⟨b', -, hpass⟩ := hi hv
    have hitems : Passes b' (',' :: tail) .other rest := .comma (ih ht)
    exact hpass.trans ((passes_blanks hd).trans hitems)

theorem passes_arrayBody (hi : item.PassesValues) {text rest : List Char} {vs : List Json}
    (h : arrayBody item text = .ok (vs, rest)) : Passes .other text .other rest := by
  unfold arrayBody at h
  split at h
  · cases h
  · next hd =>
    cases h
    exact (passes_blanks hd).trans (.close (.inl rfl) (by simp) (.refl _ _))
  · exact passes_items hi h

theorem passes_member (hw : ∀ name, wanted name = true) (hi : item.PassesValues) {b : Before}
    {text rest : List Char} {m : Option (String × Json)}
    (h : member wanted item text = .ok (m, rest)) :
    ∃ b', b' ≠ .comma ∧ Passes b ('"' :: text) b' rest := by
  obtain ⟨⟨name, after⟩, hn, hcolon⟩ := bind_eq_ok_iff.1 h
  dsimp only at hcolon
  split at hcolon
  · cases hcolon
  · next tail hd =>
    rw [if_pos (hw _)] at hcolon
    obtain ⟨⟨v, rest'⟩, hv, he⟩ := bind_eq_ok_iff.1 hcolon
    cases he
    obtain ⟨b', hb', hpass⟩ := hi (b := .other) hv
    exact ⟨b', hb', (passes_string hn).trans ((passes_blanks hd).trans (.colon hpass))⟩
  · cases hcolon

theorem passes_members (hw : ∀ name, wanted name = true) (hi : item.PassesValues) {b : Before}
    {text rest : List Char} {ms : List (String × Json)}
    (h : members wanted item text = .ok (ms, rest)) : Passes b ('"' :: text) .other rest := by
  fun_induction members wanted item text generalizing b ms rest with
  | case1 | case2 | case4 | case6 | case7 | case8 => cases h
  | case3 text m after hm tail hd =>
    cases h
    obtain ⟨b', hb', hpass⟩ := passes_member hw hi hm
    have hclose : Passes b' ('\x7d' :: tail) .other tail := .close (.inr rfl) hb' (.refl _ _)
    exact hpass.trans ((passes_blanks hd).trans hclose)
  | case5 text m after hm next tail hn hd _ ih =>
    obtain ⟨⟨ns, rest'⟩, ht, he⟩ := map_eq_ok_iff.1 h
    cases he
    obtain ⟨b', -, hpass⟩ := passes_member hw hi hm
    have hmembers : Passes b' (',' :: next) .other rest := .comma ((passes_blanks hn).trans (ih ht))
    exact hpass.trans ((passes_blanks hd).trans hmembers)

theorem passes_objectBody (hw : ∀ name, wanted name = true) (hi : item.PassesValues)
    {text rest : List Char} {ms : List (String × Json)}
    (h : objectBody wanted item text = .ok (ms, rest)) : Passes .other text .other rest := by
  unfold objectBody at h
  split at h
  · cases h
  · next hd =>
    cases h
    exact (passes_blanks hd).trans (.close (.inr rfl) (by simp) (.refl _ _))
  · next hd => exact (passes_blanks hd).trans (passes_members hw hi h)
  · cases h

theorem passes_word {b : Before} {c : Char} {expected text rest : List Char} {u v : Json}
    (hs : (c :: expected).all isSign = true)
    (h : (word expected text).map (u, ·) = .ok (v, rest)) : Passes b (c :: text) .other rest := by
  obtain ⟨rest', hr, he⟩ := map_eq_ok_iff.1 h
  cases he
  rw [word_eq_ok hr]
  exact passes_signs_of_ne_nil (List.all_eq_true.1 hs) (by simp) rest

theorem passes_valueText {nested : Option (Reader Json)} (hw : ∀ name, wanted name = true)
    (hn : ∀ item, nested = some item → item.PassesValues) {b : Before} {text rest : List Char}
    {v : Json} (h : valueText wanted nested text = .ok (v, rest)) :
    ∃ b', b' ≠ .comma ∧ Passes b text b' rest := by
  unfold valueText at h
  split at h
  · cases h
  next c tail hd =>
  have hblank : Passes b text b (c :: tail) := passes_blanks hd
  -- Only a string ends behind a string; every other value ends behind a sign or a bracket.
  suffices hval : Passes b (c :: tail) .other rest ∨ Passes b (c :: tail) .string rest by
    rcases hval with hpass | hpass
    · exact ⟨.other, by simp, hblank.trans hpass⟩
    · exact ⟨.string, by simp, hblank.trans hpass⟩
  split at h
  · next hc => exact .inl (passes_word (by rw [hc]; decide) h)
  split at h
  · next hc => exact .inl (passes_word (by rw [hc]; decide) h)
  split at h
  · next hc => exact .inl (passes_word (by rw [hc]; decide) h)
  split at h
  · next hc =>
    obtain ⟨n, hnum, -⟩ := map_rest h
    exact .inl (.sign (by rw [hc]; decide) (passes_number hnum))
  split at h
  · obtain ⟨n, hnum, -⟩ := map_rest h
    exact .inl (passes_number hnum)
  split at h
  · next hc =>
    obtain ⟨⟨cs, rest'⟩, hstr, he⟩ := map_eq_ok_iff.1 h
    cases he
    rw [hc]
    exact .inr (passes_string hstr)
  split at h
  · next hc =>
    split at h
    · cases h
    · next item =>
      obtain ⟨vs, harr, -⟩ := map_rest h
      have hpass := passes_arrayBody (hn item rfl) harr
      exact .inl (.sign (by rw [hc]; decide) hpass)
  split at h
  · next hc =>
    split at h
    · cases h
    · next item =>
      obtain ⟨ms, hobj, -⟩ := map_rest h
      have hpass := passes_objectBody hw (hn item rfl) hobj
      exact .inl (.sign (by rw [hc]; decide) hpass)
  · cases h

end

/-- The reader for all members passes over values, however deep they may be. -/
theorem Reader.passesValues (depth : Nat) : (Reader.value depth []).PassesValues := by
  have hall : ∀ name, Outline.wants [] name = true := fun _ => rfl
  induction depth with
  | zero =>
    intro b text rest v h
    have hv : valueText (Outline.wants []) none text = .ok (v, rest) := h
    exact passes_valueText hall (fun _ hn => by cases hn) hv
  | succ depth ih =>
    intro b text rest v h
    have hv : valueText (Outline.wants []) (some (Reader.value depth [])) text = .ok (v, rest) := h
    refine passes_valueText hall (fun item hn => ?_) hv
    cases hn
    exact ih

/-- **A text that is read is passed over from end to end.** -/
theorem passes_of_readValue {text : String} {v : Json} (h : readValue text = .ok v) :
    ∃ b, Passes .other text.toList b [] := by
  obtain ⟨doc, hdoc, -⟩ := map_eq_ok_iff.1 h
  rw [read, readOutline, mapError_eq_ok_iff] at hdoc
  obtain ⟨⟨u, rest⟩, hv, hend⟩ := bind_eq_ok_iff.1 hdoc
  obtain ⟨b, -, hpass⟩ := Reader.passesValues maxDepth (b := .other) hv
  dsimp only at hend
  split at hend
  · next hd => exact ⟨b, hpass.trans (passes_blanks hd)⟩
  · cases hend

end TypedFlags.Json
