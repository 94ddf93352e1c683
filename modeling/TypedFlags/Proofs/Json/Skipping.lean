import TypedFlags.Proofs.Json.Depth
import TypedFlags.Proofs.Json.Passage
/-!
# What is read can be passed over

Of a member that nobody asks for only the text is looked at. That asks for less than a reading does:
**where a value is read, it can be passed over, and what is left of the text is the same**
(`Reader.value_skips`). So whoever asks for less of a document never fails where one who asks for
more has succeeded.

`skipValue` goes on behind the value until all open brackets are closed, so what it does with a value
is stated for all brackets that may be open around it (`Reader.Skips`).
-/

set_option autoImplicit false

namespace TypedFlags.Json

/-! ## Strings -/

theorem skipString_plain {c : Char} {text : List Char} (hq : c ≠ '"') (hb : c ≠ '\\')
    (hc : ¬c.toNat < 0x20) : skipString (c :: text) = skipString text := by
  rw [skipString]
  · rw [if_neg hc]
  · exact hq
  · exact hb

theorem skipString_escape {text rest : List Char} (h : skipEscape text = .ok rest) :
    skipString ('\\' :: text) = skipString rest := by
  rw [skipString]
  split
  · next he => rw [h] at he; cases he
  · next he =>
    rw [h] at he
    cases he
    rfl

theorem skipString_hexUnit {text rest : List Char} {n : Nat} (h : hexUnit text = .ok (n, rest)) :
    skipString ('\\' :: 'u' :: text) = skipString rest := by
  refine skipString_escape ?_
  rw [skipEscape, if_pos rfl, h]
  rfl

/-- A surrogate pair is read as one character and passed over as two escapes. -/
theorem skipString_unicodeEscape {text rest : List Char} {c : Char}
    (h : unicodeEscape text = .ok (c, rest)) :
    skipString ('\\' :: 'u' :: text) = skipString rest := by
  obtain ⟨⟨first, rest₁⟩, h₁, hfirst⟩ := bind_eq_ok_iff.1 h
  rw [skipString_hexUnit h₁]
  dsimp only at hfirst
  split at hfirst
  · cases hfirst
  · split at hfirst
    · obtain ⟨rest₂, h₂, hpair⟩ := bind_eq_ok_iff.1 hfirst
      obtain ⟨rest₃, h₃, hunit⟩ := bind_eq_ok_iff.1 hpair
      obtain ⟨⟨second, rest₄⟩, h₄, hsecond⟩ := bind_eq_ok_iff.1 hunit
      obtain rfl := pairCharacter_eq_ok h₂
      obtain rfl := pairCharacter_eq_ok h₃
      rw [skipString_hexUnit h₄]
      dsimp only at hsecond
      split at hsecond
      · rw [Except.ok.injEq, Prod.mk.injEq] at hsecond
        rw [hsecond.2]
      · cases hsecond
    · cases hfirst
      rfl

theorem skipString_escaped {text rest : List Char} {c : Char} (h : escaped text = .ok (c, rest)) :
    skipString ('\\' :: text) = skipString rest := by
  unfold escaped at h
  split at h
  · cases h
  · next d tail =>
    split at h
    · next hd =>
      subst hd
      exact skipString_unicodeEscape h
    · next hd =>
      split at h
      · next e he =>
        cases h
        refine skipString_escape ?_
        rw [skipEscape, if_neg hd, if_pos (by rw [he]; rfl)]
      · cases h

theorem skipString_of_stringBody {text rest cs : List Char} (h : stringBody text = .ok (cs, rest)) :
    skipString text = .ok rest := by
  fun_induction stringBody text generalizing cs rest with
  | case1 | case3 | case5 => cases h
  | case2 =>
    cases h
    rw [skipString]
  | case4 tail c after he ih =>
    obtain ⟨⟨ds, rest'⟩, hd, he'⟩ := map_eq_ok_iff.1 h
    cases he'
    rw [skipString_escaped he, ih hd]
  | case6 c tail hq hb hc ih =>
    obtain ⟨⟨ds, rest'⟩, hd, he'⟩ := map_eq_ok_iff.1 h
    cases he'
    rw [skipString_plain hq hb hc, ih hd]

/-! ## Brackets -/

section
variable {bracket : Bracket} {inner outer opened : List Bracket} {text next rest tail : List Char}

theorem skipRest_close (h : dropBlanks text = bracket.closing :: rest) :
    skipRest (bracket :: outer) text = skipRest outer rest := by
  rw [skipRest]
  split
  · next hd => rw [h] at hd; cases hd
  · next hd =>
    rw [h] at hd
    cases hd
    rw [if_pos rfl]

theorem skipRest_more (h : dropBlanks text = ',' :: next) (hn : bracket.skipName next = .ok rest) :
    skipRest (bracket :: outer) text = skipValue (bracket :: outer) rest := by
  rw [skipRest]
  split
  · next hd => rw [h] at hd; cases hd
  · next hd =>
    rw [h] at hd
    cases hd
    rw [if_neg (by cases bracket <;> decide), if_pos rfl]
    split
    · next heq => rw [hn] at heq; cases heq
    · next heq =>
      rw [hn] at heq
      cases heq
      rfl

theorem skipValue_scalar (ho : opening? (dropBlanks text) = none)
    (hs : skipScalar (dropBlanks text) = .ok rest) :
    skipValue opened text = skipRest opened rest := by
  rw [skipValue]
  split
  · split
    · next heq => rw [hs] at heq; cases heq
    · next heq =>
      rw [hs] at heq
      cases heq
      rfl
  · next heq => rw [ho] at heq; cases heq

theorem skipValue_empty (ho : opening? (dropBlanks text) = some (bracket, tail))
    (hc : (dropBlanks tail).head? = some bracket.closing) :
    skipValue opened text = skipRest (bracket :: opened) tail := by
  rw [skipValue]
  split
  · next heq => rw [ho] at heq; cases heq
  · next heq =>
    rw [ho] at heq
    cases heq
    rw [if_pos hc]

theorem skipValue_open (ho : opening? (dropBlanks text) = some (bracket, tail))
    (hc : (dropBlanks tail).head? ≠ some bracket.closing) (hn : bracket.skipName tail = .ok next) :
    skipValue opened text = skipValue (bracket :: opened) next := by
  rw [skipValue]
  split
  · next heq => rw [ho] at heq; cases heq
  · next heq =>
    rw [ho] at heq
    cases heq
    rw [if_neg hc]
    split
    · next heq => rw [hn] at heq; cases heq
    · next heq =>
      rw [hn] at heq
      cases heq
      rfl

end

mutual

/-- What is passed over goes on inside further brackets. -/
theorem skipValue_append {inner outer : List Bracket} {text rest : List Char}
    (h : skipValue inner text = .ok rest) : skipValue (inner ++ outer) text = skipRest outer rest := by
  have hl := dropBlanks_length text
  rw [skipValue] at h
  split at h
  · next ho =>
    split at h
    · cases h
    · next tail hs =>
      have := skipScalar_shorter hs
      rw [skipValue_scalar ho hs, skipRest_append h]
  · next bracket tail ho =>
    have := opening?_shorter ho
    split at h
    · next hc =>
      rw [skipValue_empty ho hc, ← List.cons_append, skipRest_append h]
    · next hc =>
      split at h
      · cases h
      · next next hn =>
        have := Bracket.skipName_length hn
        rw [skipValue_open ho hc hn]
        exact skipValue_append h
termination_by text.length

theorem skipRest_append {inner outer : List Bracket} {text rest : List Char}
    (h : skipRest inner text = .ok rest) : skipRest (inner ++ outer) text = skipRest outer rest := by
  have hl := dropBlanks_length text
  unfold skipRest at h
  split at h
  · cases h
    rfl
  · next bracket inner =>
    split at h
    · cases h
    · next c tail hd =>
      have htail : tail.length < text.length := by
        rw [hd] at hl
        exact hl
      split at h
      · next hc =>
        subst hc
        rw [List.cons_append, skipRest_close hd, skipRest_append h]
      · split at h
        · next hc =>
          subst hc
          split at h
          · cases h
          · next next hn =>
            have := Bracket.skipName_length hn
            rw [List.cons_append, skipRest_more hd hn, ← List.cons_append, skipValue_append h]
        · cases h
termination_by text.length

end

/-! ## Arrays and objects -/

/-- A reader that reads only what can be passed over, whatever brackets are open. -/
def Reader.Skips (item : Reader Json) : Prop :=
  ∀ {text rest : List Char} {v : Json}, item.run text = .ok (v, rest) →
    ∀ opened, skipValue opened text = skipRest opened rest

section
variable {item : Reader Json} {wanted : String → Bool} {text rest : List Char}

theorem skipValue_items (hi : item.Skips) {vs : List Json} (h : items item text = .ok (vs, rest))
    (outer : List Bracket) : skipValue (.array :: outer) text = skipRest outer rest := by
  fun_induction items item text generalizing vs rest with
  | case1 | case2 | case4 | case5 | case7 => cases h
  | case3 text v after hv tail hd =>
    cases h
    rw [hi hv, skipRest_close hd]
  | case6 text v after hv tail _ _ hd _ ih =>
    obtain ⟨⟨us, rest'⟩, ht, he⟩ := map_eq_ok_iff.1 h
    cases he
    rw [hi hv, skipRest_more hd rfl, ih ht]

theorem skipValue_array (hi : item.Skips) {vs : List Json} {tail : List Char}
    (hd : dropBlanks text = '[' :: tail) (h : arrayBody item tail = .ok (vs, rest))
    (opened : List Bracket) : skipValue opened text = skipRest opened rest := by
  have ho : opening? (dropBlanks text) = some (.array, tail) := by rw [hd]; rfl
  unfold arrayBody at h
  split at h
  · cases h
  · next hclose =>
    cases h
    rw [skipValue_empty ho (by rw [hclose]; rfl), skipRest_close hclose]
  · next hend hclose =>
    have hitems : (dropBlanks tail).head? ≠ some ']' := by
      intro hhead
      obtain ⟨next, hnext⟩ := List.head?_eq_some_iff.1 hhead
      exact hclose _ hnext
    rw [skipValue_open ho hitems rfl, skipValue_items hi h]

/-- A member is passed over whether it is wanted or not. -/
theorem skip_member (hi : item.Skips) {before : List Char} {m : Option (String × Json)}
    (hd : dropBlanks before = '"' :: text) (h : member wanted item text = .ok (m, rest)) :
    ∃ value, Bracket.object.skipName before = .ok value ∧
      ∀ opened, skipValue opened value = skipRest opened rest := by
  obtain ⟨⟨name, after⟩, hn, hcolon⟩ := bind_eq_ok_iff.1 h
  dsimp only at hcolon
  split at hcolon
  · cases hcolon
  · next value hc =>
    have hname : Bracket.object.skipName before = .ok value := by
      simp only [Bracket.skipName, hd, skipString_of_stringBody hn, bind, Except.bind, hc]
    refine ⟨value, hname, fun opened => ?_⟩
    split at hcolon
    · obtain ⟨⟨v, rest'⟩, hv, he⟩ := bind_eq_ok_iff.1 hcolon
      cases he
      exact hi hv opened
    · obtain ⟨rest', hs, he⟩ := bind_eq_ok_iff.1 hcolon
      cases he
      exact skipValue_append hs
  · cases hcolon

theorem skip_members (hi : item.Skips) {before : List Char} {ms : List (String × Json)}
    (hd : dropBlanks before = '"' :: text) (h : members wanted item text = .ok (ms, rest)) :
    ∃ value, Bracket.object.skipName before = .ok value ∧
      ∀ outer, skipValue (.object :: outer) value = skipRest outer rest := by
  fun_induction members wanted item text generalizing before ms rest with
  | case1 | case2 | case4 | case6 | case7 | case8 => cases h
  | case3 text m after hm tail hclose =>
    cases h
    obtain ⟨value, hname, hskip⟩ := skip_member hi hd hm
    refine ⟨value, hname, fun outer => ?_⟩
    rw [hskip, skipRest_close hclose]
  | case5 text m after hm next tail hn hmore _ ih =>
    obtain ⟨⟨ns, rest'⟩, ht, he⟩ := map_eq_ok_iff.1 h
    cases he
    obtain ⟨value, hname, hskip⟩ := skip_member hi hd hm
    obtain ⟨value', hname', hskip'⟩ := ih hn ht
    refine ⟨value, hname, fun outer => ?_⟩
    rw [hskip, skipRest_more hmore hname', hskip']

theorem skipValue_object (hi : item.Skips) {ms : List (String × Json)} {tail : List Char}
    (hd : dropBlanks text = '\x7b' :: tail) (h : objectBody wanted item tail = .ok (ms, rest))
    (opened : List Bracket) : skipValue opened text = skipRest opened rest := by
  have ho : opening? (dropBlanks text) = some (.object, tail) := by rw [hd]; rfl
  unfold objectBody at h
  split at h
  · cases h
  · next hclose =>
    cases h
    rw [skipValue_empty ho (by rw [hclose]; rfl), skipRest_close hclose]
  · next hquote =>
    obtain ⟨value, hname, hskip⟩ := skip_members hi hquote h
    rw [skipValue_open ho (by rw [hquote]; simp [Bracket.closing]) hname, hskip]
  · cases h

/-! ## Values -/

theorem skipScalar_of_valueText {c : Char} {tail : List Char} {v : Json}
    (hd : dropBlanks text = c :: tail) (ha : c ≠ '[') (ho : c ≠ '\x7b')
    {nested : Option (Reader Json)} (h : valueText wanted nested text = .ok (v, rest)) :
    skipScalar (c :: tail) = .ok rest := by
  have hword {x : Except Stop (List Char)} {u : Json} (h : x.map (u, ·) = .ok (v, rest)) :
      x = .ok rest := by
    obtain ⟨_, hx, he⟩ := map_eq_ok_iff.1 h
    cases he
    exact hx
  have hnumber {negative : Bool} {digits : List Char} {n : Number}
      (h : readNumber negative digits = .ok (n, rest)) :
      (numeral digits).map (·.2) = .ok rest := by
    obtain ⟨⟨m, rest'⟩, hm, hvalue⟩ := bind_eq_ok_iff.1 h
    obtain ⟨value, -, he⟩ := bind_eq_ok_iff.1 hvalue
    cases he
    rw [hm]
    rfl
  unfold valueText at h
  rw [hd] at h
  dsimp only at h
  rw [skipScalar]
  split at h
  · next hc => rw [if_pos hc, hword h]
  next hn =>
  rw [if_neg hn]
  split at h
  · next hc => rw [if_pos hc, hword h]
  next ht =>
  rw [if_neg ht]
  split at h
  · next hc => rw [if_pos hc, hword h]
  next hf =>
  rw [if_neg hf]
  split at h
  · next hc =>
    obtain ⟨n, hx, -⟩ := map_rest h
    rw [if_pos hc, hnumber hx]
  next hm =>
  rw [if_neg hm]
  split at h
  · next hc =>
    obtain ⟨n, hx, -⟩ := map_rest h
    rw [if_pos hc, hnumber hx]
  next hg =>
  rw [if_neg hg]
  split at h
  · next hc =>
    obtain ⟨cs, hx, -⟩ := map_rest (f := fun cs => Json.string (String.ofList cs)) h
    rw [if_pos hc, skipString_of_stringBody hx]
  · cases h

theorem opening?_scalar {c : Char} {tail : List Char} (ha : c ≠ '[') (ho : c ≠ '\x7b') :
    opening? (c :: tail) = none := by
  unfold opening?
  split
  · next heq => cases heq; exact absurd rfl ha
  · next heq => cases heq; exact absurd rfl ho
  · rfl

theorem skipValue_of_valueText {nested : Option (Reader Json)}
    (hn : ∀ item, nested = some item → item.Skips) {v : Json}
    (h : valueText wanted nested text = .ok (v, rest)) (opened : List Bracket) :
    skipValue opened text = skipRest opened rest := by
  cases hd : dropBlanks text with
  | nil =>
    unfold valueText at h
    rw [hd] at h
    cases h
  | cons c tail =>
    by_cases ha : c = '['
    · subst ha
      obtain ⟨item, hitem, vs, hvs, -⟩ := valueText_array_ok hd h
      exact skipValue_array (hn item hitem) hd hvs opened
    by_cases ho : c = '\x7b'
    · subst ho
      obtain ⟨item, hitem, ms, hms, -⟩ := valueText_object_ok hd h
      exact skipValue_object (hn item hitem) hd hms opened
    refine skipValue_scalar ?_ ?_
    · rw [hd, opening?_scalar ha ho]
    · rw [hd, skipScalar_of_valueText hd ha ho h]

end

/-- **Where a value is read, it can be passed over**, whatever is asked of it. -/
theorem Reader.value_skips (d : Nat) (o : Outline) : (Reader.value d o).Skips := by
  induction d generalizing o with
  | zero =>
    intro text rest v h
    have hv : valueText o.wants none text = .ok (v, rest) := h
    exact skipValue_of_valueText (fun _ hn => by cases hn) hv
  | succ d ih =>
    intro text rest v h
    have hv : valueText o.wants (some (Reader.value d o.tail)) text = .ok (v, rest) := h
    refine skipValue_of_valueText (fun item hn => ?_) hv
    cases hn
    exact ih o.tail

end TypedFlags.Json
