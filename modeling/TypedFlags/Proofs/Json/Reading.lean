import TypedFlags.Proofs.Except
import TypedFlags.Proofs.Json.Grammar
/-!
# What is written is read

The reader takes every text of the grammar, and gives the document that the text writes
(`Writes.run`), if two limits are kept: the document is nested at most as deep as the reader allows,
and the reading is for all of its members (`Within`).

There is one lemma for each reader. Each is about the text in front of an arbitrary rest, and where a
reader goes on as long as it can (digits, blanks), the rest must not let it.
-/

set_option autoImplicit false

namespace TypedFlags.Json

/-! ## Blanks -/

theorem dropBlanks_blank {c : Char} {text : List Char} (hc : isBlank c = true) :
    dropBlanks (c :: text) = dropBlanks text := by
  rw [dropBlanks, List.dropWhile_cons_of_pos hc]
  rfl

theorem dropBlanks_of_gap {text rest : List Char} (h : Gap text rest) :
    dropBlanks text = dropBlanks rest := by
  induction h with
  | none => rfl
  | blank hc _ ih => rw [dropBlanks_blank hc, ih]

theorem dropBlanks_cons {c : Char} {text : List Char} (hc : isBlank c = false) :
    dropBlanks (c :: text) = c :: text := by
  rw [dropBlanks, List.dropWhile_cons_of_neg (by simp [hc])]

/-- Behind the blanks stands what the grammar says. -/
theorem Gap.dropBlanks_eq {c : Char} {text rest : List Char} (h : Gap text (c :: rest))
    (hc : isBlank c = false) : dropBlanks text = c :: rest := by
  rw [dropBlanks_of_gap h, dropBlanks_cons hc]

/-! ## Strings -/

/-- Hexadecimal digits take one byte each. -/
theorem utf8Size_of_hexValue? {c : Char} {n : Nat} (h : hexValue? c = some n) : c.utf8Size = 1 := by
  have hascii : c.toNat ≤ 0x7f := by
    unfold hexValue? at h
    split at h
    · next hc => exact Nat.le_trans (UInt32.le_iff_toNat_le.1 hc.2) (by decide)
    · split at h
      · next hc => exact Nat.le_trans (UInt32.le_iff_toNat_le.1 hc.2) (by decide)
      · split at h
        · next hc => exact Nat.le_trans (UInt32.le_iff_toNat_le.1 hc.2) (by decide)
        · cases h
  rw [Char.utf8Size_eq_one_iff]
  exact UInt32.le_iff_toNat_le.2 hascii

theorem HexText.run {ds : List Char} {n : Nat} (h : HexText ds n) (rest : List Char) :
    hexUnit (ds ++ rest) = .ok (n, rest) := by
  cases h with
  | @intro a b c d i j k l ha hb hc hd =>
    have hcount : ¬ Text.byteCount (a :: b :: c :: d :: rest) < 4 := by
      simp only [Text.byteCount_cons, utf8Size_of_hexValue? ha, utf8Size_of_hexValue? hb,
        utf8Size_of_hexValue? hc, utf8Size_of_hexValue? hd]
      omega
    show hexUnit (a :: b :: c :: d :: rest) = _
    unfold hexUnit
    rw [if_neg hcount]
    simp [ha, hb, hc, hd]

theorem not_isTrailing_of_isLeading {n : Nat} (h : isLeading n = true) : isTrailing n = false := by
  simp only [isLeading, isTrailing, Bool.and_eq_true, decide_eq_true_eq, Bool.and_eq_false_iff,
    decide_eq_false_iff_not] at h ⊢
  omega

theorem pairCharacter_self (c : Char) (rest : List Char) :
    pairCharacter c (c :: rest) = .ok rest := by
  rw [pairCharacter, if_pos rfl]

theorem plainEscape?_ne_u {d c : Char} (h : plainEscape? d = some c) : d ≠ 'u' := by
  rintro rfl
  cases h

theorem EscapeText.run {e : List Char} {c : Char} (h : EscapeText e c) (rest : List Char) :
    escaped (e ++ rest) = .ok (c, rest) := by
  cases h with
  | @plain d _ h =>
    show escaped (d :: rest) = _
    rw [escaped, if_neg (plainEscape?_ne_u h), h]
  | @unit ds n h hl ht =>
    show escaped ('u' :: (ds ++ rest)) = _
    rw [escaped, if_pos rfl, unicodeEscape, h.run]
    simp [bind, Except.bind, hl, ht]
  | @pair ds es m n hd hm he hn =>
    show escaped ('u' :: ((ds ++ '\\' :: 'u' :: es) ++ rest)) = _
    rw [List.append_assoc, escaped, if_pos rfl, unicodeEscape, hd.run]
    simp [bind, Except.bind, hm, not_isTrailing_of_isLeading hm, pairCharacter_self, he.run, hn]

theorem stringBody_quote (rest : List Char) : stringBody ('"' :: rest) = .ok ([], rest) := by
  rw [stringBody]

theorem stringBody_plain {c : Char} {text : List Char} (hq : c ≠ '"') (hb : c ≠ '\\')
    (hc : 0x20 ≤ c.toNat) :
    stringBody (c :: text) = (stringBody text).map fun (cs, rest) => (c :: cs, rest) := by
  rw [stringBody]
  · exact if_neg (by omega)
  · exact hq
  · exact hb

theorem stringBody_escape {c : Char} {text rest : List Char} (h : escaped text = .ok (c, rest)) :
    stringBody ('\\' :: text) = (stringBody rest).map fun (cs, rest) => (c :: cs, rest) := by
  rw [stringBody]
  split
  · next he =>
    rw [h] at he
    cases he
  · next he =>
    rw [h] at he
    cases he
    rfl

theorem Spells.run {text cs : List Char} (h : Spells text cs) (rest : List Char) :
    stringBody (text ++ '"' :: rest) = .ok (cs, rest) := by
  induction h with
  | nil => exact stringBody_quote rest
  | plain hq hb hc _ ih =>
    rw [List.cons_append, stringBody_plain hq hb hc, ih]
    rfl
  | escape he _ ih =>
    rw [List.cons_append, List.append_assoc, stringBody_escape (he.run _), ih]
    rfl

/-! ## Numbers -/

/-- No digit stands at the front of a text. -/
def NoDigit (rest : List Char) : Prop := ∀ c ∈ rest.head?, c.isDigit = false

theorem digits_append {ds rest : List Char} (hd : ∀ c ∈ ds, c.isDigit = true) (hr : NoDigit rest) :
    digits (ds ++ rest) = (ds, rest) := by
  rw [digits, List.takeWhile_append_of_pos hd, List.dropWhile_append_of_pos hd]
  cases rest with
  | nil => simp
  | cons c rest =>
    have hc : c.isDigit = false := hr c rfl
    simp [hc]

theorem Ends.noDigit {rest : List Char} (h : Ends rest) : NoDigit rest := by
  intro c hc
  rcases h c hc with hb | rfl | rfl | rfl
  · simp only [isBlank, Bool.or_eq_true, decide_eq_true_eq] at hb
    rcases hb with ((rfl | rfl) | rfl) | rfl <;> decide
  all_goals decide

theorem ExponentText.noDigit {text rest : List Char} {e : Option (Bool × List Char)}
    (h : ExponentText text e) (hr : Ends rest) : NoDigit (text ++ rest) := by
  have hmark : ∀ {c : Char} {t : List Char}, c = 'e' ∨ c = 'E' → NoDigit (c :: t) := by
    rintro c t he d hd
    cases hd
    rcases he with rfl | rfl <;> decide
  cases h with
  | none => exact hr.noDigit
  | unsigned he | plus he | minus he => exact hmark he

theorem FractionText.noDigit {text fs rest : List Char} (h : FractionText text fs)
    (hr : NoDigit rest) : NoDigit (text ++ rest) := by
  cases h with
  | none => exact hr
  | digits =>
    rintro c hc
    cases hc
    decide

theorem WholeText.run {text rest : List Char} (h : WholeText text) (hr : NoDigit rest) :
    wholePart (text ++ rest) = .ok (text, rest) := by
  cases h with
  | zero =>
    have hd : Json.digits ([] ++ rest) = ([], rest) := digits_append (by simp) hr
    rw [List.nil_append] at hd
    show wholePart ('0' :: rest) = _
    simp [wholePart, hd]
  | digits h h0 =>
    have hd := digits_append h.2 hr
    unfold wholePart
    split
    · next tail heq =>
      -- Digits that start with a zero are the other alternative.
      obtain ⟨c, cs, rfl⟩ := List.exists_cons_of_ne_nil h.1
      cases heq
      exact absurd rfl h0
    · rw [hd]
      split
      · next heq =>
        cases heq
        exact absurd rfl h.1
      · next heq =>
        cases heq
        rfl

theorem FractionText.run {text fs rest : List Char} (h : FractionText text fs) (hr : NoDigit rest)
    (hp : rest.head? ≠ some '.') : fractionPart (text ++ rest) = .ok (fs, rest) := by
  cases h with
  | none =>
    rw [List.nil_append]
    unfold fractionPart
    split
    · exact absurd rfl hp
    · rfl
  | digits h =>
    have hd := digits_append h.2 hr
    rw [List.cons_append, fractionPart, hd]
    split
    · next heq =>
      cases heq
      exact absurd rfl h.1
    · next heq =>
      cases heq
      rfl

/-- The digits of an exponent, behind its mark and its sign. -/
theorem exponentPart_mark {m : Char} {signed ds rest : List Char} {negative : Bool}
    (hm : m = 'e' ∨ m = 'E') (hs : exponentSign signed = (negative, ds ++ rest))
    (h : IsDigits ds) (hr : NoDigit rest) :
    exponentPart (m :: signed) = .ok (some (negative, ds), rest) := by
  have hd := digits_append h.2 hr
  simp only [exponentPart, hm, if_true, hs, hd]
  split
  · next heq =>
    cases heq
    exact absurd rfl h.1
  · next heq =>
    cases heq
    rfl

theorem exponentSign_digits {ds rest : List Char} (h : IsDigits ds) :
    exponentSign (ds ++ rest) = (false, ds ++ rest) := by
  obtain ⟨c, cs, rfl⟩ := List.exists_cons_of_ne_nil h.1
  have hc : c.isDigit = true := h.2 c (by simp)
  rw [List.cons_append]
  unfold exponentSign
  split
  · next heq =>
    cases heq
    exact absurd hc (by decide)
  · next heq =>
    cases heq
    exact absurd hc (by decide)
  · rfl

theorem ExponentText.run {text rest : List Char} {e : Option (Bool × List Char)}
    (h : ExponentText text e) (hr : Ends rest) : exponentPart (text ++ rest) = .ok (e, rest) := by
  cases h with
  | none =>
    rw [List.nil_append]
    cases rest with
    | nil => rfl
    | cons c rest =>
      have hc : ¬ (c = 'e' ∨ c = 'E') := by
        rintro (rfl | rfl) <;> exact absurd (hr _ rfl) (by decide)
      rw [exponentPart, if_neg hc]
  | unsigned he h => exact exponentPart_mark he (exponentSign_digits h) h hr.noDigit
  | plus he h => exact exponentPart_mark he rfl h hr.noDigit
  | minus he h => exact exponentPart_mark he rfl h hr.noDigit

/-- Only the place of a fault depends on what stands behind a number. -/
theorem Numeral.float_rest {m : Numeral} {negative : Bool} {rest rest' : List Char} {x : Binary64}
    (h : m.float negative rest = .ok x) : m.float negative rest' = .ok x := by
  unfold Numeral.float at h ⊢
  dsimp only at h ⊢
  split at h
  · split at h
    · exact h
    · cases h
  · split at h
    · split at h
      · exact h
      · cases h
    · split at h
      · next hz =>
        rw [if_pos hz]
        exact h
      · cases h

theorem Numeral.value_rest {m : Numeral} {negative : Bool} {rest rest' : List Char} {n : Number}
    (h : m.value negative rest = .ok n) : m.value negative rest' = .ok n := by
  unfold Numeral.value at h ⊢
  dsimp only at h ⊢
  by_cases hi : m.fraction = [] ∧ m.exponent = none ∧ Fits (if negative = true then
      -((m.whole.foldl (fun n d => 10 * n + digitValue d) 0 : Nat) : Int) else
        (m.whole.foldl (fun n d => 10 * n + digitValue d) 0 : Nat)) ∧
      ¬(negative = true ∧ m.whole.foldl (fun n d => 10 * n + digitValue d) 0 = 0)
  · rw [dif_pos hi] at h ⊢
    exact h
  · rw [dif_neg hi] at h ⊢
    obtain ⟨x, hx, rfl⟩ := map_eq_ok_iff.1 h
    rw [Numeral.float_rest hx]
    rfl

theorem exists_digit_of_head? {text : List Char} (h : text.head?.any Char.isDigit = true) :
    ∃ c cs, text = c :: cs ∧ c.isDigit = true := by
  cases text with
  | nil => cases h
  | cons c cs => exact ⟨c, cs, rfl, by simpa using h⟩

theorem NumberText.run {text rest : List Char} {n : Number} (h : NumberText text n)
    (hr : Ends rest) : ∃ negative digits, text = signText negative ++ digits ∧
      digits.head?.any Char.isDigit = true ∧ readNumber negative (digits ++ rest) = .ok (n, rest) := by
  cases h with
  | @intro whole fraction fs exponent e n negative hw hf he hv =>
    refine ⟨negative, whole ++ (fraction ++ exponent), rfl, ?_, ?_⟩
    · cases hw with
      | zero => rfl
      | digits h h0 =>
        obtain ⟨c, cs, rfl⟩ := List.exists_cons_of_ne_nil h.1
        simpa using h.2 c (by simp)
    · have hexp := he.noDigit hr
      have hpoint : (exponent ++ rest).head? ≠ some '.' := by
        cases he with
        | none =>
          intro hp
          exact absurd (hr _ hp) (by decide)
        | unsigned he | plus he | minus he => rcases he with rfl | rfl <;> simp
      rw [List.append_assoc, List.append_assoc, readNumber, numeral]
      simp only [bind, Except.bind, pure, Except.pure, hw.run (hf.noDigit hexp),
        hf.run hexp hpoint, he.run hr, Numeral.value_rest hv]

/-! ## Values that hold no others -/

/-- The reading is for all members of a document, at every depth. -/
inductive Within : Outline → Json → Prop
  | null (o : Outline) : Within o .null
  | bool (o : Outline) (b : Bool) : Within o (.bool b)
  | number (o : Outline) (n : Number) : Within o (.number n)
  | string (o : Outline) (s : String) : Within o (.string s)
  | array {o : Outline} {items : List Json} (h : ∀ v ∈ items, Within o.tail v) :
      Within o (.array items)
  | object {o : Outline} {members : List (String × Json)}
      (hw : ∀ m ∈ members, o.wants m.1 = true) (h : ∀ m ∈ members, Within o.tail m.2) :
      Within o (.object members)

@[simp] theorem within_bool (o : Outline) (b : Bool) : Within o (.bool b) := .bool o b

@[simp] theorem within_string (o : Outline) (s : String) : Within o (.string s) := .string o s

@[simp] theorem within_array_iff {o : Outline} {items : List Json} :
    Within o (.array items) ↔ ∀ v ∈ items, Within o.tail v := by
  constructor
  · intro h
    cases h with
    | array h => exact h
  · exact .array

@[simp] theorem within_object_iff {o : Outline} {members : List (String × Json)} :
    Within o (.object members) ↔ ∀ m ∈ members, o.wants m.1 = true ∧ Within o.tail m.2 := by
  constructor
  · intro h
    cases h with
    | object hw h => exact fun m hm => ⟨hw m hm, h m hm⟩
  · exact fun h => .object (fun m hm => (h m hm).1) fun m hm => (h m hm).2

section
variable {wanted : String → Bool} {nested : Option (Reader Json)} {rest : List Char}

theorem valueText_blank {c : Char} {text : List Char} (hc : isBlank c = true) :
    valueText wanted nested (c :: text) = valueText wanted nested text := by
  unfold valueText
  rw [dropBlanks_blank hc]

theorem valueText_string {text cs : List Char} (h : Spells text cs) :
    valueText wanted nested ('"' :: (text ++ '"' :: rest)) =
      .ok (.string (String.ofList cs), rest) := by
  show (stringBody (text ++ '"' :: rest)).map _ = _
  rw [h.run]
  rfl

theorem isBlank_of_isDigit {c : Char} (h : c.isDigit = true) : isBlank c = false := by
  rw [← Bool.not_eq_true]
  intro hb
  simp only [isBlank, Bool.or_eq_true, decide_eq_true_eq] at hb
  rcases hb with ((rfl | rfl) | rfl) | rfl <;> exact absurd h (by decide)

theorem valueText_number {text : List Char} {n : Number} (h : NumberText text n) (hr : Ends rest) :
    valueText wanted nested (text ++ rest) = .ok (.number n, rest) := by
  obtain ⟨negative, digits, rfl, hd, hrun⟩ := h.run hr
  cases negative with
  | true =>
    show (readNumber true (digits ++ rest)).map _ = _
    rw [hrun]
    rfl
  | false =>
    obtain ⟨c, cs, rfl, hc⟩ := exists_digit_of_head? hd
    have hne : ∀ d : Char, d.isDigit = false → c ≠ d := by
      rintro d hd rfl
      rw [hd] at hc
      cases hc
    show valueText wanted nested (c :: (cs ++ rest)) = _
    unfold valueText
    rw [dropBlanks_cons (isBlank_of_isDigit hc)]
    dsimp only
    rw [if_neg (hne _ (by decide)), if_neg (hne _ (by decide)), if_neg (hne _ (by decide)),
      if_neg (hne _ (by decide)), if_pos hc]
    rw [List.cons_append] at hrun
    rw [hrun]
    rfl

end

/-! ## Arrays and objects -/

/-- No value starts with a closing bracket. -/
theorem Writes.start {v : Json} {text rest : List Char} :
    Writes v text rest → ∃ c tail, dropBlanks text = c :: tail ∧ c ≠ ']'
  | .blank hc h => by
    rw [dropBlanks_blank hc]
    exact h.start
  | .null _ => ⟨_, _, rfl, by decide⟩
  | .true _ => ⟨_, _, rfl, by decide⟩
  | .false _ => ⟨_, _, rfl, by decide⟩
  | .number h he => by
    obtain ⟨negative, digits, rfl, hd, -⟩ := h.run he
    cases negative with
    | true => exact ⟨_, _, rfl, by decide⟩
    | false =>
      obtain ⟨c, cs, rfl, hc⟩ := exists_digit_of_head? hd
      refine ⟨c, cs ++ rest, dropBlanks_cons (isBlank_of_isDigit hc), ?_⟩
      rintro rfl
      exact absurd hc (by decide)
  | .string _ _ => ⟨_, _, rfl, by decide⟩
  | .emptyArray _ => ⟨_, _, rfl, by decide⟩
  | .array _ => ⟨_, _, rfl, by decide⟩
  | .emptyObject _ => ⟨_, _, rfl, by decide⟩
  | .object _ => ⟨_, _, rfl, by decide⟩

section
variable {item : Reader Json} {text mid next rest : List Char} {v : Json}

theorem items_last (h : item.run text = .ok (v, mid)) (hc : dropBlanks mid = ']' :: rest) :
    items item text = .ok ([v], rest) := by
  rw [items]
  split
  · next hr => rw [h] at hr; cases hr
  · next hr =>
    rw [h] at hr
    cases hr
    split
    · next hd => rw [hc] at hd; cases hd
    · next hd =>
      rw [hc] at hd
      cases hd
      rfl

theorem items_more {c : Char} {tail : List Char} {vs : List Json}
    (h : item.run text = .ok (v, mid)) (hc : dropBlanks mid = ',' :: next)
    (hn : dropBlanks next = c :: tail) (hne : c ≠ ']') (hs : items item next = .ok (vs, rest)) :
    items item text = .ok (v :: vs, rest) := by
  rw [items]
  split
  · next hr => rw [h] at hr; cases hr
  · next hr =>
    rw [h] at hr
    cases hr
    split
    · next hd => rw [hc] at hd; cases hd
    · next hd =>
      rw [hc] at hd
      cases hd
      rw [if_neg (by decide), if_pos rfl, hn, hs]
      split
      · next heq => cases heq
      · next heq =>
        cases heq
        exact absurd rfl hne
      · rfl

theorem arrayBody_items {c : Char} {tail : List Char} (h : dropBlanks text = c :: tail)
    (hne : c ≠ ']') : arrayBody item text = items item text := by
  unfold arrayBody
  split
  · next hd => rw [h] at hd; cases hd
  · next hd =>
    rw [h] at hd
    cases hd
    exact absurd rfl hne
  · rfl

theorem arrayBody_empty (h : dropBlanks text = ']' :: rest) :
    arrayBody item text = .ok ([], rest) := by
  unfold arrayBody
  rw [h]
  rfl

variable {wanted : String → Bool} {name : String} {m : Option (String × Json)}
  {ms : List (String × Json)}

/-- The name of a member is read from behind its quote on. -/
theorem WriteName.run {value : List Char} (h : WriteName name text value) :
    ∃ tail, dropBlanks text = '"' :: tail ∧
      ∃ cs next, stringBody tail = .ok (cs, next) ∧ String.ofList cs = name ∧
        dropBlanks next = ':' :: value := by
  cases h with
  | intro hg hs hc =>
    exact ⟨_, hg.dropBlanks_eq (by decide), _, _, hs.run _, rfl, hc.dropBlanks_eq (by decide)⟩

theorem member_wanted {tail cs value : List Char} (hn : stringBody tail = .ok (cs, next))
    (hname : String.ofList cs = name) (hc : dropBlanks next = ':' :: value)
    (hw : wanted name = true) (h : item.run value = .ok (v, mid)) :
    member wanted item tail = .ok (some (name, v), mid) := by
  subst hname
  simp only [member, bind, Except.bind, hn, hc, hw, if_true, h]

theorem members_last (h : member wanted item text = .ok (m, mid))
    (hc : dropBlanks mid = '}' :: rest) : members wanted item text = .ok (m.toList, rest) := by
  rw [members]
  split
  · next hr => rw [h] at hr; cases hr
  · next hr =>
    rw [h] at hr
    cases hr
    split
    · next hd => rw [hc] at hd; cases hd
    · next hd =>
      rw [hc] at hd
      cases hd
      rfl

theorem members_more {tail : List Char} (h : member wanted item text = .ok (m, mid))
    (hc : dropBlanks mid = ',' :: next) (hn : dropBlanks next = '"' :: tail)
    (hs : members wanted item tail = .ok (ms, rest)) :
    members wanted item text = .ok (m.toList ++ ms, rest) := by
  rw [members]
  split
  · next hr => rw [h] at hr; cases hr
  · next hr =>
    rw [h] at hr
    cases hr
    split
    · next hd => rw [hc] at hd; cases hd
    · next hd =>
      rw [hc] at hd
      cases hd
      rw [if_neg (by decide), if_pos rfl]
      split
      · next hr => rw [hn] at hr; cases hr
      · next hr =>
        rw [hn] at hr
        cases hr
        rw [hs]
        rfl
      · next hr => rw [hn] at hr; cases hr
      · next hquote _ =>
        exact absurd hn (hquote tail)

theorem objectBody_members {tail : List Char} (h : dropBlanks text = '"' :: tail) :
    objectBody wanted item text = members wanted item tail := by
  unfold objectBody
  rw [h]
  rfl

theorem objectBody_empty (h : dropBlanks text = '}' :: rest) :
    objectBody wanted item text = .ok ([], rest) := by
  unfold objectBody
  rw [h]
  rfl

end

/-! ## Every value -/

theorem Reader.value_nested {n d : Nat} (h : n + 1 ≤ d) (o : Outline) :
    ∃ d', n ≤ d' ∧ ∀ text, (Reader.value d o).run text =
      valueText o.wants (some (Reader.value d' o.tail)) text := by
  cases d with
  | zero => cases h
  | succ d => exact ⟨d, Nat.le_of_succ_le_succ h, fun _ => rfl⟩

/-- The readers for all depths read blanks and scalars alike. -/
theorem Reader.value_eq (d : Nat) (o : Outline) :
    ∃ nested, ∀ text, (Reader.value d o).run text = valueText o.wants nested text := by
  cases d with
  | zero => exact ⟨none, fun _ => rfl⟩
  | succ d => exact ⟨some (Reader.value d o.tail), fun _ => rfl⟩

mutual

/-- **A document that is written is read**, if it is not too deep and all of it is wanted. -/
theorem Writes.run {v : Json} {text rest : List Char} {d : Nat} {o : Outline} :
    Writes v text rest → v.depth ≤ d → Within o v →
      (Reader.value d o).run text = .ok (v, rest)
  | .blank hc h, hd, hw => by
    obtain ⟨nested, hrun⟩ := Reader.value_eq d o
    rw [hrun, valueText_blank hc, ← hrun]
    exact h.run hd hw
  | .null rest, _, _ => by
    obtain ⟨nested, hrun⟩ := Reader.value_eq d o
    rw [hrun]
    rfl
  | .true rest, _, _ => by
    obtain ⟨nested, hrun⟩ := Reader.value_eq d o
    rw [hrun]
    rfl
  | .false rest, _, _ => by
    obtain ⟨nested, hrun⟩ := Reader.value_eq d o
    rw [hrun]
    rfl
  | .number h he, _, _ => by
    obtain ⟨nested, hrun⟩ := Reader.value_eq d o
    rw [hrun, valueText_number h he]
  | .string h rest, _, _ => by
    obtain ⟨nested, hrun⟩ := Reader.value_eq d o
    rw [hrun, valueText_string h]
  | .emptyArray h, hd, _ => by
    obtain ⟨d', hd', hnested⟩ := Reader.value_nested hd o
    rw [hnested]
    show (arrayBody _ _).map _ = _
    rw [arrayBody_empty (h.dropBlanks_eq (by decide))]
    rfl
  | .array h, hd, .array hw => by
    obtain ⟨d', hd', hnested⟩ := Reader.value_nested hd o
    obtain ⟨⟨c, tail, hc, hne⟩, hrun⟩ := h.run hd' hw
    rw [hnested]
    show (arrayBody _ _).map _ = _
    rw [arrayBody_items hc hne, hrun]
    rfl
  | .emptyObject h, hd, _ => by
    obtain ⟨d', hd', hnested⟩ := Reader.value_nested hd o
    rw [hnested]
    show (objectBody _ _ _).map _ = _
    rw [objectBody_empty (h.dropBlanks_eq (by decide))]
    rfl
  | .object h, hd, .object hn hw => by
    obtain ⟨d', hd', hnested⟩ := Reader.value_nested hd o
    obtain ⟨tail, hc, hrun⟩ := h.run hd' hn hw
    rw [hnested]
    show (objectBody _ _ _).map _ = _
    rw [objectBody_members hc, hrun]
    rfl

theorem WriteItems.run {vs : List Json} {text rest : List Char} {d : Nat} {o : Outline} :
    WriteItems vs text rest → depthItems vs ≤ d → (∀ v ∈ vs, Within o v) →
      (∃ c tail, dropBlanks text = c :: tail ∧ c ≠ ']') ∧
        items (Reader.value d o) text = .ok (vs, rest)
  | .last h hc, hd, hw => by
    refine ⟨h.start, items_last (h.run ?_ (hw _ (by simp))) (hc.dropBlanks_eq (by decide))⟩
    exact Nat.le_trans (Nat.le_max_left _ _) hd
  | .more h hc hs, hd, hw => by
    obtain ⟨⟨c, tail, hn, hne⟩, hrun⟩ := hs.run (Nat.le_trans (Nat.le_max_right _ _) hd)
      fun v hv => hw v (by simp [hv])
    have hv := h.run (Nat.le_trans (Nat.le_max_left _ _) hd) (hw _ (by simp))
    exact ⟨h.start, items_more hv (hc.dropBlanks_eq (by decide)) hn hne hrun⟩

theorem WriteMembers.run {ms : List (String × Json)} {text rest : List Char} {d : Nat}
    {o o' : Outline} :
    WriteMembers ms text rest → depthMembers ms ≤ d → (∀ m ∈ ms, o.wants m.1 = true) →
      (∀ m ∈ ms, Within o' m.2) →
      ∃ tail, dropBlanks text = '"' :: tail ∧
        members o.wants (Reader.value d o') tail = .ok (ms, rest)
  | .last hn h hc, hd, hw, hin => by
    obtain ⟨tail, ht, cs, next, hs, hname, hcolon⟩ := hn.run
    have hv := h.run (Nat.le_trans (Nat.le_max_left _ _) hd) (hin _ List.mem_cons_self)
    have hm := member_wanted hs hname hcolon (hw _ List.mem_cons_self) hv
    exact ⟨tail, ht, members_last hm (hc.dropBlanks_eq (by decide))⟩
  | .more hn h hc hs, hd, hw, hin => by
    obtain ⟨tail, ht, cs, next, hs', hname, hcolon⟩ := hn.run
    have hv := h.run (Nat.le_trans (Nat.le_max_left _ _) hd) (hin _ List.mem_cons_self)
    have hm := member_wanted hs' hname hcolon (hw _ List.mem_cons_self) hv
    obtain ⟨tail', ht', hrun⟩ := hs.run (Nat.le_trans (Nat.le_max_right _ _) hd)
      (fun m hm => hw m (by simp [hm])) fun m hm => hin m (by simp [hm])
    exact ⟨tail, ht, members_more hm (hc.dropBlanks_eq (by decide)) ht' hrun⟩

end

/-! ## Whole texts -/

/-- A reading for all members is for all members of any document. -/
theorem within_nil : ∀ v : Json, Within [] v
  | .null => .null _
  | .bool b => .bool _ b
  | .number n => .number _ n
  | .string s => .string _ s
  | .array _ => .array fun v _ => within_nil v
  | .object _ => .object (fun _ _ => rfl) fun (_, v) _ => within_nil v
termination_by v => sizeOf v
decreasing_by
  · exact sizeOf_item_lt ‹_›
  · exact sizeOf_member_lt ‹_›

/-- **A text that writes a document is read as that document.** -/
theorem IsText.readOutline {v : Json} {text : String} {o : Outline} (h : IsText v text.toList)
    (hd : v.depth ≤ maxDepth) (hw : Within o v) : Json.readOutline o text = .ok v := by
  obtain ⟨rest, hv, hg⟩ := h
  have hend : dropBlanks rest = [] := by rw [dropBlanks_of_gap hg]; rfl
  rw [Json.readOutline, mapError_eq_ok_iff, readWithin, hv.run hd hw]
  simp [bind, Except.bind, hend]

theorem IsText.readValue {v : Json} {text : String} (h : IsText v text.toList)
    (hd : v.depth ≤ maxDepth) : Json.readValue text = .ok v.settle := by
  rw [Json.readValue, Json.read, h.readOutline hd (within_nil v)]
  rfl

end TypedFlags.Json
