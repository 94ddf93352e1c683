import TypedFlags.Json.Compact
import TypedFlags.Proofs.Json.Reading
/-!
# Compact text is JSON text

The compact text of a document writes the document (`isText_compact`), provided that each of its
numbers is written by its own text (`Printable`). For strings there is nothing to assume: whatever
characters a string holds, what stands between its quotes spells them. So the text is read back as
the document, if the document is not too deep (`Printable.read_text`).
-/

set_option autoImplicit false

namespace TypedFlags.Json

/-! ## Strings -/

theorem hexValue?_hexDigit (n : Nat) : hexValue? (hexDigit n) = some (n % 16) := by
  have hall : ∀ k < 16, hexValue? (Nat.digitChar k) = some k := by decide
  exact hall _ (Nat.mod_lt n (by decide))

theorem escapeText_control {c : Char} (hc : c.toNat < 0x20) :
    EscapeText ['u', '0', '0', hexDigit (c.toNat / 16), hexDigit c.toNat] c := by
  have hzero : hexValue? '0' = some 0 := rfl
  have hhex := HexText.intro hzero hzero (hexValue?_hexDigit (c.toNat / 16))
    (hexValue?_hexDigit c.toNat)
  have hvalue : ((0 * 16 + 0) * 16 + c.toNat / 16 % 16) * 16 + c.toNat % 16 = c.toNat := by omega
  rw [hvalue] at hhex
  have hlead : isLeading c.toNat = false := by
    simp only [isLeading, Bool.and_eq_false_iff, decide_eq_false_iff_not]
    omega
  have htrail : isTrailing c.toNat = false := by
    simp only [isTrailing, Bool.and_eq_false_iff, decide_eq_false_iff_not]
    omega
  have := EscapeText.unit hhex hlead htrail
  rwa [Char.ofNat_toNat] at this

theorem spells_escape (c : Char) {text cs : List Char} (h : Spells text cs) :
    Spells (escape c ++ text) (c :: cs) := by
  have hplain : ∀ {d : Char}, plainEscape? d = some c → Spells ('\\' :: ([d] ++ text)) (c :: cs) :=
    fun hd => .escape (.plain hd) h
  unfold escape
  split
  · exact hplain rfl
  · exact hplain rfl
  · exact hplain rfl
  · exact hplain rfl
  · exact hplain rfl
  · exact hplain rfl
  · exact hplain rfl
  · next hq hb _ _ _ _ _ =>
    split
    · next hc => exact .escape (escapeText_control hc) h
    · next hc => exact .plain hq hb (Nat.le_of_not_lt hc) h

theorem spells_flatMap_escape (cs : List Char) : Spells (cs.flatMap escape) cs := by
  induction cs with
  | nil => exact .nil
  | cons c cs ih =>
    rw [List.flatMap_cons]
    exact spells_escape c ih

theorem quoted_append (s : String) (rest : List Char) :
    quoted s ++ rest = '"' :: (s.toList.flatMap escape ++ '"' :: rest) := by
  simp [quoted]

theorem writes_quoted (s : String) (rest : List Char) :
    Writes (.string s) (quoted s ++ rest) rest := by
  rw [quoted_append]
  simpa using Writes.string (spells_flatMap_escape s.toList) rest

theorem writeName_quoted (name : String) (rest : List Char) :
    WriteName name (quoted name ++ ':' :: rest) rest := by
  rw [quoted_append]
  simpa using WriteName.intro (.none _) (spells_flatMap_escape name.toList) (.none _)

/-! ## Documents -/

/-- The numbers of a document are written by their texts. -/
inductive Printable : Json → Prop
  | null : Printable .null
  | bool (b : Bool) : Printable (.bool b)
  | number {n : Number} (h : NumberText n.compact n) : Printable (.number n)
  | string (s : String) : Printable (.string s)
  | array {items : List Json} (h : ∀ v ∈ items, Printable v) : Printable (.array items)
  | object {members : List (String × Json)} (h : ∀ m ∈ members, Printable m.2) :
      Printable (.object members)

@[simp] theorem printable_bool (b : Bool) : Printable (.bool b) := .bool b

@[simp] theorem printable_string (s : String) : Printable (.string s) := .string s

@[simp] theorem printable_array_iff {items : List Json} :
    Printable (.array items) ↔ ∀ v ∈ items, Printable v := by
  constructor
  · intro h
    cases h with
    | array h => exact h
  · exact .array

@[simp] theorem printable_object_iff {members : List (String × Json)} :
    Printable (.object members) ↔ ∀ m ∈ members, Printable m.2 := by
  constructor
  · intro h
    cases h with
    | object h => exact h
  · exact .object

theorem ends_cons {c : Char} {rest : List Char} (hc : c = ',' ∨ c = ']' ∨ c = '}') :
    Ends (c :: rest) := by
  intro d hd
  cases hd
  exact .inr hc

mutual

theorem writes_compact : ∀ (v : Json), Printable v → ∀ rest, Ends rest →
    Writes v (v.compact ++ rest) rest
  | .null, _, rest, _ => .null rest
  | .bool true, _, rest, _ => .true rest
  | .bool false, _, rest, _ => .false rest
  | .number _, .number h, _, hr => .number h hr
  | .string s, _, rest, _ => writes_quoted s rest
  | .array [], _, _, _ => .emptyArray (.none _)
  | .array (v :: vs), .array h, rest, _ => by
    have := writes_compactItems v vs h rest
    simpa [compact] using Writes.array this
  | .object [], _, _, _ => .emptyObject (.none _)
  | .object (m :: ms), .object h, rest, _ => by
    have := writes_compactMembers m ms h rest
    simpa [compact] using Writes.object this
termination_by v => sizeOf v

theorem writes_compactItems : ∀ (v : Json) (vs : List Json), (∀ u ∈ v :: vs, Printable u) →
    ∀ rest, WriteItems (v :: vs) (compactItems (v :: vs) ++ ']' :: rest) rest
  | v, [], h, rest => by
    have := writes_compact v (h v List.mem_cons_self) (']' :: rest) (ends_cons (by simp))
    exact .last this (.none _)
  | v, u :: vs, h, rest => by
    rw [List.forall_mem_cons] at h
    have hs := writes_compactItems u vs h.2 rest
    have hv := writes_compact v h.1 (',' :: (compactItems (u :: vs) ++ ']' :: rest))
      (ends_cons (by simp))
    simpa [compactItems] using WriteItems.more hv (.none _) hs
termination_by v vs => sizeOf (v :: vs)

theorem writes_compactMembers : ∀ (m : String × Json) (ms : List (String × Json)),
    (∀ l ∈ m :: ms, Printable l.2) →
    ∀ rest, WriteMembers (m :: ms) (compactMembers (m :: ms) ++ '}' :: rest) rest
  | (name, v), [], h, rest => by
    have hv := writes_compact v (h _ List.mem_cons_self) ('}' :: rest) (ends_cons (by simp))
    simpa [compactMembers] using WriteMembers.last (writeName_quoted name _) hv (.none _)
  | (name, v), l :: ms, h, rest => by
    rw [List.forall_mem_cons] at h
    have hs := writes_compactMembers l ms h.2 rest
    have hv := writes_compact v h.1 (',' :: (compactMembers (l :: ms) ++ '}' :: rest))
      (ends_cons (by simp))
    simpa [compactMembers] using WriteMembers.more (writeName_quoted name _) hv (.none _) hs
termination_by m ms => sizeOf (m :: ms)

end

/-- **The compact text of a document writes the document.** -/
theorem isText_compact {v : Json} (h : Printable v) : IsText v v.compact := by
  have hends : Ends [] := by
    intro c hc
    cases hc
  have := writes_compact v h [] hends
  rw [List.append_nil] at this
  exact ⟨[], this, .none _⟩

theorem Printable.isText {v : Json} (h : Printable v) : IsText v v.text.toList := by
  rw [text, String.toList_ofList]
  exact isText_compact h

/-- So it is read as the document, if the document is not too deep. -/
theorem Printable.read_text {v : Json} (h : Printable v) (hd : v.depth ≤ maxDepth) :
    Json.read v.text = .ok v := h.isText.readOutline hd (within_nil v)

end TypedFlags.Json
