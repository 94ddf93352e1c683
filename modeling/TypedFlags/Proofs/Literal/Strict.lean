import TypedFlags.Literal.Normal
import TypedFlags.Proofs.Json.Passage
/-!
# Strict JSON is left alone

A literal that is strict JSON already is its own normal form. Each of the three replacements copies
the strings, so it could only do something outside them, and there the passage over the text
(`TypedFlags.Proofs.Json.Passage`) forbids what it looks for: no single quote stands outside a string,
no colon stands behind anything but a string, and no bracket is closed behind a comma.
-/

set_option autoImplicit false

namespace TypedFlags.Literal

open Json (Passes StringText)

/-! ## Running a replacement -/

theorem Replacement.apply_nil (r : Replacement) : r.apply [] = [] := by
  rw [Replacement.apply]

theorem Replacement.apply_of_some {r : Replacement} {text out rest : List Char}
    (h : r.replace? text = some (out, rest)) : r.apply text = out ++ r.apply rest := by
  cases text with
  | nil =>
    have := r.shorter h
    simp at this
  | cons c tail =>
    rw [Replacement.apply]
    split
    · next hr =>
      rw [h] at hr
      cases hr
      rfl
    · next hr =>
      rw [h] at hr
      cases hr

theorem Replacement.apply_of_none {r : Replacement} {c : Char} {tail : List Char}
    (h : r.replace? (c :: tail) = none) : r.apply (c :: tail) = c :: r.apply tail := by
  rw [Replacement.apply]
  split
  · next hr =>
    rw [h] at hr
    cases hr
  · rfl

/-! ## Strings are copied -/

section
variable {quote c : Char} (text : List Char)

theorem quotedBody_quote : quotedBody quote (quote :: text) = some ([], text) := by
  rw [quotedBody.eq_def]
  simp

theorem quotedBody_plain (hq : c ≠ quote) (hb : c ≠ '\\') :
    quotedBody quote (c :: text) =
      (quotedBody quote text).map fun (body, rest) => (c :: body, rest) := by
  rw [quotedBody.eq_def]
  simp [hq, hb]

theorem quotedBody_escape (hq : quote ≠ '\\') (hn : c ≠ '\n') :
    quotedBody quote ('\\' :: c :: text) =
      (quotedBody quote text).map fun (body, rest) => ('\\' :: c :: body, rest) := by
  rw [quotedBody.eq_def]
  simp [hq.symm, hn]

end

theorem quotedBody_of_stringText {body : List Char} (h : StringText body) (rest : List Char) :
    quotedBody '"' (body ++ '"' :: rest) = some (body, rest) := by
  induction h with
  | nil => exact quotedBody_quote rest
  | plain hq hb _ ih =>
    rw [List.cons_append, quotedBody_plain _ hq hb, ih]
    rfl
  | escape hc _ ih =>
    rw [List.cons_append, List.cons_append, quotedBody_escape _ (by decide) hc, ih]
    rfl

section
variable {other : List Char → Option (List Char × List Char)}
  {shorter : ∀ {text out rest : List Char}, other text = some (out, rest) →
    rest.length < text.length}

theorem apply_string {body : List Char} (h : StringText body) (rest : List Char) :
    (outsideStrings other shorter).apply ('"' :: (body ++ '"' :: rest)) =
      '"' :: (body ++ '"' :: (outsideStrings other shorter).apply rest) := by
  have hcopy : (outsideStrings other shorter).replace? ('"' :: (body ++ '"' :: rest)) =
      some ('"' :: body ++ ['"'], rest) := by
    simp [outsideStrings, doubleQuoted?, quotedBody_of_stringText h]
  rw [Replacement.apply_of_some hcopy]
  simp

theorem apply_kept {c : Char} {tail : List Char} (hc : c ≠ '"') (h : other (c :: tail) = none) :
    (outsideStrings other shorter).apply (c :: tail) =
      c :: (outsideStrings other shorter).apply tail := by
  apply Replacement.apply_of_none
  simp [outsideStrings, doubleQuoted?, hc, h]

/-- A replacement that finds nothing outside the strings of a text leaves it alone. -/
theorem apply_of_passes (hother : ∀ {b b' : Json.Before} {c : Char} {tail : List Char},
      Passes b (c :: tail) b' [] → c ≠ '"' → other (c :: tail) = none)
    {b b' : Json.Before} {text : List Char} (h : Passes b text b' []) :
    (outsideStrings other shorter).apply text = text := by
  -- Of the constructors only `string` is more than one character, and that one is copied whole.
  generalize hend : [] = rest at h
  induction h with
  | refl b text =>
    subst hend
    exact Replacement.apply_nil _
  | string hb _ ih => rw [apply_string hb, ih hend]
  | @blank _ _ c _ _ hc hp ih =>
    subst hend
    have hne : c ≠ '"' := by
      rintro rfl
      exact absurd hc (by decide)
    rw [apply_kept hne (hother (.blank hc hp) hne), ih rfl]
  | colon hp ih =>
    subst hend
    rw [apply_kept (by decide) (hother (.colon hp) (by decide)), ih rfl]
  | @comma b _ _ _ hp ih =>
    subst hend
    have hpass : Passes b (',' :: _) _ [] := .comma hp
    rw [apply_kept (by decide) (hother hpass (by decide)), ih rfl]
  | @close _ _ c _ _ hc hb hp ih =>
    subst hend
    have hne : c ≠ '"' := by rcases hc with rfl | rfl <;> decide
    rw [apply_kept hne (hother (.close hc hb hp) hne), ih rfl]
  | @sign b _ c _ _ hc hp ih =>
    subst hend
    have hne : c ≠ '"' := by
      rintro rfl
      exact absurd hc (by decide)
    have hpass : Passes b (c :: _) _ [] := .sign hc hp
    rw [apply_kept hne (hother hpass hne), ih rfl]

end

/-! ## Marks -/

/-- The characters at which there may be something to replace, and the backslash. -/
def marks : List Char := ['"', '\'', '\\', '{', ',']

/-- A character is no mark. -/
def Plain (c : Char) : Prop := c ∉ marks

instance : DecidablePred Plain := fun c => inferInstanceAs (Decidable (c ∉ marks))

theorem Plain.ne {c d : Char} (h : Plain c) (hd : d ∈ marks) : c ≠ d := by
  rintro rfl
  exact h hd

theorem plain_of_class {p : Char → Bool} {c : Char} (hc : p c = true)
    (hp : marks.any p = false) : Plain c := by
  intro hm
  rw [List.any_eq_false] at hp
  exact hp c hm hc

theorem plain_gap (text : List Char) : ∀ c ∈ gap text, Plain c := by
  intro c hc
  have hspace := List.all_eq_true.1 List.all_takeWhile c hc
  exact plain_of_class hspace (by decide)

theorem gap_append_afterGap (text : List Char) : gap text ++ afterGap text = text :=
  List.takeWhile_append_dropWhile

/-! ## What a replacement finds -/

/-- Where a key is found, a colon stands behind it. -/
theorem keyAndColon?_front {text : List Char} {r : List Char × List Char}
    (h : keyAndColon? text = some r) :
    ∃ front tail, (∀ c ∈ front, Plain c) ∧ text = front ++ ':' :: tail := by
  unfold keyAndColon? at h
  split at h
  · cases h
  next c rest hkey =>
  split at h
  · next hc =>
    split at h
    · next tail hcolon =>
      have hstart : Plain c := plain_of_class hc (by decide)
      have hpart : ∀ d ∈ rest.takeWhile isKeyPart, Plain d := by
        intro d hd
        have hpart := List.all_eq_true.1 List.all_takeWhile d hd
        exact plain_of_class hpart (by decide)
      have hrest : rest.takeWhile isKeyPart ++ (gap (rest.dropWhile isKeyPart) ++ ':' :: tail) =
          rest := by
        rw [← hcolon, gap_append_afterGap, List.takeWhile_append_dropWhile]
      refine ⟨gap text ++ (c :: (rest.takeWhile isKeyPart ++ gap (rest.dropWhile isKeyPart))), tail,
        ?_, ?_⟩
      · simp only [List.forall_mem_append, List.forall_mem_cons]
        exact ⟨plain_gap text, hstart, hpart, plain_gap _⟩
      · rw [List.append_assoc, List.cons_append, List.append_assoc, hrest, ← hkey,
          gap_append_afterGap]
    · cases h
  · cases h

theorem bareKey?_front {c : Char} {text : List Char} {r : List Char × List Char}
    (h : bareKey? (c :: text) = some r) : (c = '{' ∨ c = ',') ∧
      ∃ front tail, (∀ d ∈ front, Plain d) ∧ text = front ++ ':' :: tail := by
  unfold bareKey? at h
  dsimp only at h
  split at h
  · next hc =>
    obtain ⟨_, hkey, -⟩ := Option.map_eq_some_iff.1 h
    exact ⟨hc, keyAndColon?_front hkey⟩
  · cases h

theorem trailingComma?_front {c : Char} {text : List Char} {r : List Char × List Char}
    (h : trailingComma? (c :: text) = some r) : c = ',' ∧
      ∃ space close tail, (∀ d ∈ space, Text.isWhiteSpace d = true) ∧
        (close = '}' ∨ close = ']') ∧ text = space ++ close :: tail := by
  unfold trailingComma? at h
  split at h
  · next text heq =>
    cases heq
    split at h
    · cases h
    · next close tail hgap =>
      split at h
      · next hclose =>
        refine ⟨rfl, gap text, close, tail, List.all_eq_true.1 List.all_takeWhile, hclose, ?_⟩
        rw [← hgap, gap_append_afterGap]
      · cases h
  · cases h

/-! ## Nothing to replace -/

/-- No single quote stands outside a string. -/
theorem not_passes_apostrophe {b b' : Json.Before} {text : List Char} :
    ¬ Passes b ('\'' :: text) b' [] := by
  intro h
  cases h with
  | blank hc => exact absurd hc (by decide)
  | close hc => exact absurd hc (by decide)
  | sign hc => exact absurd hc (by decide)

theorem singleQuoted?_of_passes {b b' : Json.Before} {c : Char} {text : List Char}
    (h : Passes b (c :: text) b' []) (_ : c ≠ '"') : singleQuoted? (c :: text) = none := by
  unfold singleQuoted?
  split
  · next heq =>
    cases heq
    exact absurd h not_passes_apostrophe
  · rfl

theorem passes_behind_comma {b b' : Json.Before} {text : List Char}
    (h : Passes b (',' :: text) b' []) : Passes .comma text b' [] := by
  cases h with
  | blank hc => exact absurd hc (by decide)
  | comma hp => exact hp
  | close hc => exact absurd hc (by decide)
  | sign hc => exact absurd hc (by decide)

/-- Between a comma or a bracket and a colon there is a string. -/
theorem not_passes_colon {b b' : Json.Before} {s text : List Char} (hb : b ≠ .string)
    (hs : '"' ∉ s) : ¬ Passes b (s ++ ':' :: text) b' [] := by
  induction s generalizing b with
  | nil =>
    intro h
    cases h with
    | blank hc => exact absurd hc (by decide)
    | colon => exact hb rfl
    | close hc => exact absurd hc (by decide)
    | sign hc => exact absurd hc (by decide)
  | cons c s ih =>
    rw [List.mem_cons, not_or] at hs
    rw [List.cons_append]
    generalize htail : s ++ ':' :: text = tail
    intro h
    -- Whatever character comes first, what stands before the next one is no string again.
    cases h with
    | blank _ hp => exact ih hb hs.2 (htail ▸ hp)
    | string => exact hs.1 rfl
    | colon => exact hb rfl
    | comma hp => exact ih (by simp) hs.2 (htail ▸ hp)
    | close _ _ hp => exact ih (by simp) hs.2 (htail ▸ hp)
    | sign _ hp => exact ih (by simp) hs.2 (htail ▸ hp)

theorem passes_behind_lead {b b' : Json.Before} {c : Char} {text : List Char}
    (hc : c = '{' ∨ c = ',') (h : Passes b (c :: text) b' []) :
    ∃ b ≠ .string, Passes b text b' [] := by
  rcases hc with rfl | rfl
  · cases h with
    | blank hc => exact absurd hc (by decide)
    | close hc => exact absurd hc (by decide)
    | sign _ hp => exact ⟨.other, by simp, hp⟩
  · exact ⟨.comma, by simp, passes_behind_comma h⟩

theorem bareKey?_of_passes {b b' : Json.Before} {c : Char} {text : List Char}
    (h : Passes b (c :: text) b' []) (_ : c ≠ '"') : bareKey? (c :: text) = none := by
  rw [Option.eq_none_iff_forall_ne_some]
  intro r hr
  obtain ⟨hc, front, tail, hfront, rfl⟩ := bareKey?_front hr
  obtain ⟨b, hb, hp⟩ := passes_behind_lead hc h
  exact not_passes_colon hb (fun hm => (hfront _ hm).ne (by decide) rfl) hp

/-- Letters and digits are ASCII, and none of them is a space or a control character. -/
theorem toNat_of_isAlphanum {c : Char} (h : c.isAlphanum = true) :
    33 ≤ c.toNat ∧ c.toNat ≤ 126 := by
  have hrange : ∀ {a z : Char}, 33 ≤ a.toNat → z.toNat ≤ 126 → a.val ≤ c.val → c.val ≤ z.val →
      33 ≤ c.toNat ∧ c.toNat ≤ 126 := by
    intro a z ha hz hac hcz
    exact ⟨Nat.le_trans ha (UInt32.le_iff_toNat_le.1 hac),
      Nat.le_trans (UInt32.le_iff_toNat_le.1 hcz) hz⟩
  rcases Bool.or_eq_true_iff.1 h with halpha | hdigit
  · rcases Bool.or_eq_true_iff.1 halpha with hupper | hlower
    · obtain ⟨hA, hZ⟩ := of_decide_eq_true hupper
      exact hrange (by decide) (by decide) hA hZ
    · obtain ⟨ha, hz⟩ := Bool.and_eq_true_iff.1 hlower
      exact hrange (by decide) (by decide) (of_decide_eq_true ha) (of_decide_eq_true hz)
  · obtain ⟨h0, h9⟩ := Bool.and_eq_true_iff.1 hdigit
    exact hrange (by decide) (by decide) (of_decide_eq_true h0) (of_decide_eq_true h9)

theorem toNat_of_isSign {c : Char} (h : Json.isSign c = true) : 33 ≤ c.toNat ∧ c.toNat ≤ 126 := by
  simp only [Json.isSign, Bool.or_eq_true, decide_eq_true_eq] at h
  rcases h with ((((halnum | rfl) | rfl) | rfl) | rfl) | rfl
  · exact toNat_of_isAlphanum halnum
  all_goals decide

theorem isWhiteSpace_of_isSign {c : Char} (h : Json.isSign c = true) :
    Text.isWhiteSpace c = false := by
  obtain ⟨hlow, hhigh⟩ := toNat_of_isSign h
  simp [Text.isWhiteSpace, Text.inRanges, Text.whiteSpaceRanges]
  omega

/-- No bracket is closed behind a comma, whatever white space stands between them. -/
theorem not_passes_close {b' : Json.Before} {c : Char} {s text : List Char}
    (hs : ∀ d ∈ s, Text.isWhiteSpace d = true) (hc : c = '}' ∨ c = ']') :
    ¬ Passes .comma (s ++ c :: text) b' [] := by
  induction s with
  | nil =>
    intro h
    rcases hc with rfl | rfl
    · cases h with
      | blank hc => exact absurd hc (by decide)
      | close _ hb => exact hb rfl
      | sign hc => exact absurd hc (by decide)
    · cases h with
      | blank hc => exact absurd hc (by decide)
      | close _ hb => exact hb rfl
      | sign hc => exact absurd hc (by decide)
  | cons d s ih =>
    obtain ⟨hd, hs⟩ := List.forall_mem_cons.1 hs
    rw [List.cons_append]
    generalize htail : s ++ c :: text = tail
    intro h
    cases h with
    | blank _ hp => exact ih hs (htail ▸ hp)
    | string => exact absurd hd (by decide)
    | comma => exact absurd hd (by decide)
    | close _ hb => exact hb rfl
    | sign hsign =>
      rw [isWhiteSpace_of_isSign hsign] at hd
      cases hd

theorem trailingComma?_of_passes {b b' : Json.Before} {c : Char} {text : List Char}
    (h : Passes b (c :: text) b' []) (_ : c ≠ '"') : trailingComma? (c :: text) = none := by
  rw [Option.eq_none_iff_forall_ne_some]
  intro r hr
  obtain ⟨rfl, space, close, tail, hspace, hclose, rfl⟩ := trailingComma?_front hr
  exact not_passes_close hspace hclose (passes_behind_comma h)

/-- **Strict JSON is its own normal form**, so as a literal it means what it means as JSON. -/
theorem normalize_of_readValue {text : String} {v : Json} (h : Json.readValue text = .ok v) :
    normalize text.toList = text.toList ∧ Literal.read text = .ok v := by
  obtain ⟨b, hp⟩ := Json.passes_of_readValue h
  have hnormal : normalize text.toList = text.toList := by
    rw [normalize, singleQuotes, bareKeys, trailingCommas,
      apply_of_passes singleQuoted?_of_passes hp, apply_of_passes bareKey?_of_passes hp,
      apply_of_passes trailingComma?_of_passes hp]
  refine ⟨hnormal, ?_⟩
  rw [Literal.read, hnormal, String.ofList_toList]
  exact h

/-- Strings that look like what the three replacements look for. -/
theorem normalize_of_readValue_lookalikes :
    let text := "\x7b \"it's\": [\"\x7bkey: 1,]\", \"\\\\\\\"'\" ],\t\"n\" :-1.5e3\n\x7d"
    ∃ v, Json.readValue text = .ok v ∧ normalize text.toList = text.toList ∧
      Literal.read text = .ok v := by
  intro text
  have hok : (Json.readValue text).toBool = true := by decide +kernel
  cases hv : Json.readValue text with
  | error e => rw [hv] at hok; cases hok
  | ok v => exact ⟨v, rfl, normalize_of_readValue hv⟩

end TypedFlags.Literal
