import TypedFlags.Proofs.Json.Passage
import TypedFlags.Proofs.Json.Printing
import TypedFlags.Proofs.Json.Reading
/-!
# Number texts

Which documents are written by their own texts (`Printable`) is a question about their numbers. An
integer always is (`numberText_integer`). A floating-point number is if its text is read back as that
number (`ReadsBack`): a text that is read as a number is a number text, of the number that was read
(`numberText_of_readNumber`).

Reading back is nothing that could be proved of all of them, for decimals are read in steps that each
round. So it is a hypothesis about the floats that a document has (`printable_of_readsBack`).
-/

set_option autoImplicit false

namespace TypedFlags.Json

/-! ## Integers -/

theorem isDigits_toDigits (n : Nat) : IsDigits (Nat.toDigits 10 n) :=
  ⟨Nat.toDigits_ne_nil, fun _ hc => Nat.isDigit_of_mem_toDigits (by decide) (by decide) hc⟩

theorem head?_toDigits {n : Nat} (h : n ≠ 0) : (Nat.toDigits 10 n).head? ≠ some '0' := by
  induction n using Nat.strongRecOn with
  | ind n ih =>
    by_cases hlt : n < 10
    · rw [Nat.toDigits_of_lt_base hlt]
      have hall : ∀ k < 10, k ≠ 0 → [Nat.digitChar k].head? ≠ some '0' := by decide
      exact hall n hlt h
    · have hten : 10 ≤ n := Nat.le_of_not_lt hlt
      have hhead := ih (n / 10) (Nat.div_lt_self (by omega) (by decide)) (by omega)
      obtain ⟨c, cs, hc⟩ := List.exists_cons_of_ne_nil (Nat.toDigits_ne_nil (n := n / 10) (b := 10))
      rw [Nat.toDigits_of_base_le (by decide) hten, hc]
      rw [hc] at hhead
      exact hhead

theorem wholeText_toDigits (n : Nat) : WholeText (Nat.toDigits 10 n) := by
  by_cases h : n = 0
  · rw [h]
    exact .zero
  · exact .digits (isDigits_toDigits n) (head?_toDigits h)

theorem foldl_toDigits (n : Nat) :
    (Nat.toDigits 10 n).foldl (fun n d => 10 * n + digitValue d) 0 = n :=
  Nat.ofDigitChars_ten_toDigits

theorem compact_integer (n : Int) (fits : Fits n) : (Number.integer n fits).compact =
    signText (decide (n < 0)) ++ Nat.toDigits 10 n.natAbs := by
  rw [Number.compact, signText]
  by_cases h : n < 0 <;> simp [h]

/-- An integer is written by its text. -/
theorem numberText_integer (n : Int) (fits : Fits n) :
    NumberText (Number.integer n fits).compact (.integer n fits) := by
  have hsigned : (if decide (n < 0) = true then -(n.natAbs : Int) else n.natAbs) = n := by
    by_cases h : n < 0
    · rw [if_pos (decide_eq_true h)]
      omega
    · rw [if_neg (by simpa using h)]
      omega
  have hvalue : (Numeral.mk (Nat.toDigits 10 n.natAbs) [] none).value (decide (n < 0)) [] =
      .ok (.integer n fits) := by
    rw [Numeral.value]
    simp only [foldl_toDigits, hsigned]
    rw [dif_pos]
    refine ⟨trivial, trivial, fits, ?_⟩
    rintro ⟨hneg, hzero⟩
    have := of_decide_eq_true hneg
    omega
  have htext := NumberText.intro _ (wholeText_toDigits n.natAbs) .none .none hvalue
  rwa [List.append_nil, List.append_nil, ← compact_integer n fits] at htext

/-! ## Texts that are read as numbers -/

theorem isDigits_of_digits {text ds rest : List Char} (h : digits text = (ds, rest))
    (hne : ds ≠ []) : text = ds ++ rest ∧ IsDigits ds := by
  simp only [digits, Prod.mk.injEq] at h
  obtain ⟨rfl, rfl⟩ := h
  exact ⟨List.takeWhile_append_dropWhile.symm, hne, List.all_eq_true.1 List.all_takeWhile⟩

theorem wholePart_eq_ok {text ds rest : List Char} (h : wholePart text = .ok (ds, rest)) :
    text = ds ++ rest ∧ WholeText ds := by
  unfold wholePart at h
  split at h
  · split at h <;> cases h
    exact ⟨rfl, .zero⟩
  · next hzero =>
    split at h
    · cases h
    · next hne hd =>
      cases h
      obtain ⟨rfl, hds⟩ := isDigits_of_digits hd hne
      refine ⟨rfl, .digits hds fun h0 => ?_⟩
      obtain ⟨tail, rfl⟩ := List.head?_eq_some_iff.1 h0
      exact hzero (tail ++ rest) rfl

theorem fractionPart_eq_ok {text ds rest : List Char} (h : fractionPart text = .ok (ds, rest)) :
    ∃ fraction, text = fraction ++ rest ∧ FractionText fraction ds := by
  unfold fractionPart at h
  split at h
  · split at h
    · cases h
    · next hne hd =>
      cases h
      obtain ⟨rfl, hds⟩ := isDigits_of_digits hd hne
      exact ⟨'.' :: ds, rfl, .digits hds⟩
  · cases h
    exact ⟨[], rfl, .none⟩

theorem exponentPart_eq_ok {text rest : List Char} {e : Option (Bool × List Char)}
    (h : exponentPart text = .ok (e, rest)) :
    ∃ exponent, text = exponent ++ rest ∧ ExponentText exponent e := by
  unfold exponentPart at h
  split at h
  · cases h
    exact ⟨[], rfl, .none⟩
  · next c tail =>
    split at h
    · next hc =>
      split at h
      next negative signed hs =>
      split at h
      · cases h
      · next ds _ hne hd =>
        cases h
        obtain ⟨rfl, hds⟩ := isDigits_of_digits hd hne
        unfold exponentSign at hs
        split at hs <;> cases hs
        · exact ⟨c :: '+' :: ds, rfl, .plus hc hds⟩
        · exact ⟨c :: '-' :: ds, rfl, .minus hc hds⟩
        · exact ⟨c :: ds, rfl, .unsigned hc hds⟩
    · cases h
      exact ⟨[], rfl, .none⟩

/-- **What is read as a number is a text of that number.** -/
theorem numberText_of_readNumber {negative : Bool} {text rest : List Char} {n : Number}
    (h : readNumber negative text = .ok (n, rest)) :
    ∃ digits, text = digits ++ rest ∧ NumberText (signText negative ++ digits) n := by
  obtain ⟨⟨m, rest'⟩, hm, hvalue⟩ := bind_eq_ok_iff.1 h
  obtain ⟨value, hv, hn⟩ := bind_eq_ok_iff.1 hvalue
  cases hn
  obtain ⟨⟨whole, text₁⟩, hw, hparts⟩ := bind_eq_ok_iff.1 hm
  obtain ⟨⟨fs, text₂⟩, hf, hpart⟩ := bind_eq_ok_iff.1 hparts
  obtain ⟨⟨e, text₃⟩, he, hr⟩ := bind_eq_ok_iff.1 hpart
  cases hr
  obtain ⟨rfl, hwhole⟩ := wholePart_eq_ok hw
  obtain ⟨fraction, rfl, hfraction⟩ := fractionPart_eq_ok hf
  obtain ⟨exponent, rfl, hexponent⟩ := exponentPart_eq_ok he
  refine ⟨whole ++ (fraction ++ exponent), by simp, ?_⟩
  exact .intro negative hwhole hfraction hexponent (Numeral.value_rest hv)

theorem readNumber_of_valueText {wanted : String → Bool} {nested : Option (Reader Json)}
    {text rest : List Char} {n : Number} (h : valueText wanted nested text = .ok (.number n, rest)) :
    ∃ negative digits, dropBlanks text = signText negative ++ digits ∧
      readNumber negative digits = .ok (n, rest) := by
  have hword : ∀ {expected tail : List Char} {u : Json}, u ≠ .number n →
      (word expected tail).map (u, ·) ≠ .ok (.number n, rest) := by
    intro expected tail u hu hw
    obtain ⟨r, -, he⟩ := map_eq_ok_iff.1 hw
    exact hu (Prod.mk.inj he).1
  unfold valueText at h
  split at h
  · cases h
  next c tail hd =>
  split at h
  · exact absurd h (hword (by simp))
  split at h
  · exact absurd h (hword (by simp))
  split at h
  · exact absurd h (hword (by simp))
  split at h
  · next hc =>
    obtain ⟨m, hm, he⟩ := map_rest h
    cases he
    exact ⟨true, tail, by rw [hd, hc]; rfl, hm⟩
  split at h
  · obtain ⟨m, hm, he⟩ := map_rest h
    cases he
    exact ⟨false, c :: tail, by rw [hd]; rfl, hm⟩
  -- What starts with another character is no number.
  split at h
  · obtain ⟨p, -, he⟩ := map_eq_ok_iff.1 h
    cases he
  split at h
  · split at h
    · cases h
    · obtain ⟨_, -, he⟩ := map_rest h
      cases he
  split at h
  · split at h
    · cases h
    · obtain ⟨_, -, he⟩ := map_rest h
      cases he
  · cases h

/-! ## Floats -/

/-- No blanks stand in a text. -/
def NoBlank (text : List Char) : Prop := ∀ c ∈ text, isBlank c = false

theorem noBlank_append {s t : List Char} : NoBlank (s ++ t) ↔ NoBlank s ∧ NoBlank t :=
  List.forall_mem_append

theorem noBlank_cons {c : Char} {s : List Char} :
    NoBlank (c :: s) ↔ isBlank c = false ∧ NoBlank s :=
  List.forall_mem_cons

theorem noBlank_toDigits (n : Nat) : NoBlank (Nat.toDigits 10 n) :=
  fun c hc => isBlank_of_isDigit ((isDigits_toDigits n).2 c hc)

theorem noBlank_replicate (n : Nat) : NoBlank (List.replicate n '0') := by
  intro c hc
  rw [List.eq_of_mem_replicate hc]
  decide

theorem noBlank_decimal (layout : Binary64.Layout) (digits : Nat) (power : Int) :
    NoBlank (layout.decimal digits power) := by
  have hds := noBlank_toDigits digits
  have htake : ∀ n, NoBlank ((Nat.toDigits 10 digits).take n) :=
    fun n c hc => hds c (List.mem_of_mem_take hc)
  have hdrop : ∀ n, NoBlank ((Nat.toDigits 10 digits).drop n) :=
    fun n c hc => hds c (List.mem_of_mem_drop hc)
  have hnil : NoBlank [] := List.forall_mem_nil _
  have hdot : isBlank '.' = false := by decide
  have hzero : isBlank '0' = false := by decide
  unfold Binary64.Layout.decimal
  dsimp only
  split
  · split
    · simp only [noBlank_append, noBlank_cons]
      exact ⟨⟨hds, noBlank_replicate _⟩, hdot, hzero, hnil⟩
    · split
      · simp only [noBlank_append, noBlank_cons]
        exact ⟨htake _, hdot, hdrop _⟩
      · simp only [noBlank_append, noBlank_cons]
        exact ⟨⟨hzero, hdot, noBlank_replicate _⟩, hds⟩
  · simp only [noBlank_append, noBlank_cons]
    refine ⟨⟨htake 1, ?_⟩, by decide, ?_, noBlank_toDigits _⟩
    · have hfraction := hdrop 1
      split
      · exact hnil
      · exact noBlank_cons.2 ⟨hdot, hfraction⟩
    · split <;> decide

theorem noBlank_float (x : Binary64) : NoBlank (floatLayout.text x) := by
  have hsign : NoBlank (if x.negative then ['-'] else []) := by
    cases x.negative <;> simp [NoBlank, isBlank]
  unfold Binary64.Layout.text
  dsimp only
  split
  · exact noBlank_append.2 ⟨hsign, by simp [NoBlank, isBlank]⟩
  · exact noBlank_append.2 ⟨hsign, noBlank_decimal _ _ _⟩

theorem dropBlanks_of_noBlank {text : List Char} (h : NoBlank text) : dropBlanks text = text := by
  cases text with
  | nil => rfl
  | cons c text => exact dropBlanks_cons (h c List.mem_cons_self)

/-- The text of a float is read as that float. -/
def ReadsBack (x : Binary64) : Prop :=
  readValue (Json.number (.float x)).text = .ok (.number (.float x))

/-- Settling leaves no number that was none before. -/
theorem eq_number_of_settle {v : Json} {n : Number} (h : v.settle = .number n) : v = .number n := by
  cases v <;> simp only [settle, reduceCtorEq] at h
  exact h

theorem ReadsBack.numberText {x : Binary64} (h : ReadsBack x) :
    NumberText (Number.float x).compact (.float x) := by
  obtain ⟨doc, hdoc, hsettle⟩ := map_eq_ok_iff.1 h
  rw [eq_number_of_settle hsettle, read, readOutline, mapError_eq_ok_iff, text,
    String.toList_ofList] at hdoc
  obtain ⟨⟨u, rest⟩, hv, hend⟩ := bind_eq_ok_iff.1 hdoc
  dsimp only at hend
  split at hend
  · next hrest =>
    cases hend
    obtain ⟨nested, hvalue⟩ := Reader.value_eq maxDepth []
    rw [hvalue] at hv
    obtain ⟨negative, digits, htext, hnumber⟩ := readNumber_of_valueText hv
    obtain ⟨ds, rfl, hds⟩ := numberText_of_readNumber hnumber
    have hblank := noBlank_float x
    have hcompact : (Json.number (.float x)).compact = floatLayout.text x := rfl
    rw [hcompact, dropBlanks_of_noBlank hblank] at htext
    rw [htext, noBlank_append, noBlank_append] at hblank
    rw [dropBlanks_of_noBlank hblank.2.2] at hrest
    rw [Number.compact, htext, hrest, List.append_nil]
    exact hds
  · cases hend

/-! ## Documents -/

/-- A float stands in a document, at any depth. -/
inductive HasFloat (x : Binary64) : Json → Prop
  | here : HasFloat x (.number (.float x))
  | item {v : Json} {items : List Json} (hv : v ∈ items) (h : HasFloat x v) :
      HasFloat x (.array items)
  | member {m : String × Json} {members : List (String × Json)} (hm : m ∈ members)
      (h : HasFloat x m.2) : HasFloat x (.object members)

/-- A document is written by its text if its floats are read back. -/
theorem printable_of_readsBack : ∀ v : Json, (∀ x, HasFloat x v → ReadsBack x) → Printable v
  | .null, _ => .null
  | .bool b, _ => .bool b
  | .string s, _ => .string s
  | .number (.integer n fits), _ => .number (numberText_integer n fits)
  | .number (.float x), h => .number (h x .here).numberText
  | .array items, h => .array fun v hv => printable_of_readsBack v fun x hx => h x (.item hv hx)
  | .object members, h =>
    .object fun m hm => printable_of_readsBack m.2 fun x hx => h x (.member hm hx)
termination_by v => sizeOf v
decreasing_by
  · exact sizeOf_item_lt hv
  · exact sizeOf_member_lt hm

end TypedFlags.Json
