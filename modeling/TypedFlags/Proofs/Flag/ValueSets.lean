import Mathlib.Data.List.Sort
import Mathlib.Data.String.Basic
import TypedFlags.Proofs.Flag.Defaults
import TypedFlags.Proofs.Literal.Quotes
/-!
# Declared values in texts

The type of a flag with declared values is their union, with the values in order and each once. Two
such types are one text only if the values are the same (`Flag.valueSets_canonical`), because **the
string literals can be read back** whatever characters are in them: a literal shows where it ends, so
a quote or a ` | ` inside of it is not taken for one behind it (`Flag.strings?_intercalate`).

What is read back from the type is also enough to say whether the flag is in order: its defaults have
to be among it, and something has to be declared. The array around the type of a tag flag is told from
the type of the other kinds by its front, since no string literal starts with a letter.
-/

set_option autoImplicit false

namespace TypedFlags

/-! ## Order and repetition -/

section
variable {α : Type} [BEq α] {a b x : α} {as : List α}

theorem eraseRepsBy_loop (acc : List α) : List.eraseRepsBy.loop (· == ·) a as acc =
    acc.reverse ++ List.eraseRepsBy.loop (· == ·) a as [] := by
  induction as generalizing a acc with
  | nil => simp [List.eraseRepsBy.loop]
  | cons b as ih =>
    rw [List.eraseRepsBy.loop, List.eraseRepsBy.loop]
    split
    · exact ih acc
    · rw [ih, ih [a]]
      simp

variable [LawfulBEq α]

theorem eraseReps_cons_of_eq (h : a = b) : (a :: b :: as).eraseReps = (a :: as).eraseReps := by
  subst h
  simp [List.eraseReps, List.eraseRepsBy, List.eraseRepsBy.loop]

theorem eraseReps_cons_of_ne (h : a ≠ b) : (a :: b :: as).eraseReps = a :: (b :: as).eraseReps := by
  have hne : (a == b) = false := by simpa using h
  simp only [List.eraseReps, List.eraseRepsBy, List.eraseRepsBy.loop, hne]
  exact eraseRepsBy_loop [a]

theorem mem_eraseReps : x ∈ as.eraseReps ↔ x ∈ as := by
  cases as with
  | nil => rfl
  | cons a as =>
    induction as generalizing a with
    | nil => rfl
    | cons b as ih =>
      by_cases h : a = b
      · rw [eraseReps_cons_of_eq h, ih, h]
        simp
      · rw [eraseReps_cons_of_ne h, List.mem_cons, ih, ← List.mem_cons]

/-- Where equal elements stand side by side, one of each is left. -/
theorem pairwise_eraseReps [LinearOrder α] (h : as.Pairwise (· ≤ ·)) :
    as.eraseReps.Pairwise (· < ·) := by
  cases as with
  | nil => exact .nil
  | cons a as =>
    induction as generalizing a with
    | nil => exact List.pairwise_singleton _ _
    | cons b as ih =>
      obtain ⟨hle, hbs⟩ := List.pairwise_cons.1 h
      by_cases hab : a = b
      · rw [eraseReps_cons_of_eq hab]
        exact ih a (hab ▸ hbs)
      · rw [eraseReps_cons_of_ne hab, List.pairwise_cons]
        refine ⟨fun x hx => ?_, ih b hbs⟩
        have hlt : a < b := lt_of_le_of_ne (hle b (by simp)) hab
        rcases List.mem_cons.1 (mem_eraseReps.1 hx) with rfl | hm
        · exact hlt
        · exact lt_of_lt_of_le hlt ((List.pairwise_cons.1 hbs).1 x hm)

end

namespace Flag

variable {vs ws : List String}

/-- The values of a union, in order and each once. -/
def valueSet (values : List String) : List String := values.mergeSort.eraseReps

theorem mem_valueSet {s : String} : s ∈ valueSet vs ↔ s ∈ vs :=
  mem_eraseReps.trans (List.mergeSort_perm _ _).mem_iff

/-- Nothing but order and repetition is lost. -/
theorem valueSet_eq_iff : valueSet vs = valueSet ws ↔ ∀ s, s ∈ vs ↔ s ∈ ws := by
  constructor
  · intro h s
    rw [← mem_valueSet, h, mem_valueSet]
  · intro h
    have hsorted (values : List String) : (valueSet values).Pairwise (· < ·) :=
      pairwise_eraseReps (List.pairwise_mergeSort' (· ≤ ·) values)
    refine (hsorted vs).eq_of_mem_iff (hsorted ws) fun s => ?_
    rw [mem_valueSet, mem_valueSet, h]

theorem mergeSort_eq_iff : vs.mergeSort = ws.mergeSort ↔ vs.Perm ws := by
  have hperm (values : List String) : values.mergeSort.Perm values := List.mergeSort_perm _ _
  constructor
  · intro h
    exact (hperm vs).symm.trans (h ▸ hperm ws)
  · intro h
    exact (((hperm vs).trans h).trans (hperm ws).symm).eq_of_pairwise'
      (List.pairwise_mergeSort' (· ≤ ·) vs) (List.pairwise_mergeSort' (· ≤ ·) ws)

/-! ## Reading string literals -/

theorem doubleQuoted?_quoted (s : String) (rest : List Char) :
    Literal.doubleQuoted? (Json.quoted s ++ rest) = some (Json.quoted s, rest) := by
  have hbody := Literal.stringText_of_spells (Json.spells_flatMap_escape s.toList)
  rw [Json.quoted_append, Literal.doubleQuoted?, Literal.quotedBody_of_stringText hbody]
  rfl

theorem quote_injective : Function.Injective quote := by
  intro s t h
  have hquoted : Json.quoted s ++ [] = Json.quoted t ++ [] := by rw [← toList_quote, h, toList_quote]
  rw [Json.quoted_append, Json.quoted_append] at hquoted
  have hs := (Json.spells_flatMap_escape s.toList).run []
  rw [(List.cons.inj hquoted).2, (Json.spells_flatMap_escape t.toList).run []] at hs
  exact (String.toList_inj.1 (Prod.mk.inj (Except.ok.inj hs)).1).symm

/-- String literals with a separator between them, at least one, in front of a closing text. -/
def literals? (separator close text : List Char) : Option (List String) :=
  match _h : Literal.doubleQuoted? text with
  | none => none
  | some (literal, rest) =>
    if rest = close then some [String.ofList literal]
    else
      match _hd : rest.dropPrefix? separator with
      | none => none
      | some rest => (literals? separator close rest).map (String.ofList literal :: ·)
termination_by text.length
decreasing_by
  have hshorter := Literal.doubleQuoted?_shorter _h
  obtain ⟨front, rfl, -⟩ := List.dropPrefix?_eq_some_iff.1 _hd
  simp at hshorter
  omega

/-- String literals with a separator between them, in front of a closing text. -/
def strings? (separator close text : List Char) : Option (List String) :=
  if text = close then some [] else literals? separator close text

section
variable {separator close : List Char}

theorem literals?_close (s : String) :
    literals? separator close (Json.quoted s ++ close) = some [quote s] := by
  rw [literals?]
  split
  · next h => cases h.symm.trans (doubleQuoted?_quoted s _)
  · next h =>
    cases h.symm.trans (doubleQuoted?_quoted s _)
    rw [if_pos rfl, ← toList_quote, String.ofList_toList]

theorem literals?_separator (s : String) {rest : List Char} (hclose : separator ++ rest ≠ close) :
    literals? separator close (Json.quoted s ++ (separator ++ rest)) =
      (literals? separator close rest).map (quote s :: ·) := by
  have hdrop := List.dropPrefix?_append_of_beq rest (beq_self_eq_true separator)
  rw [literals?]
  split
  · next h => cases h.symm.trans (doubleQuoted?_quoted s _)
  · next h =>
    cases h.symm.trans (doubleQuoted?_quoted s _)
    rw [if_neg hclose]
    split
    · next hd => cases hd.symm.trans hdrop
    · next hd =>
      cases hd.symm.trans hdrop
      rw [← toList_quote, String.ofList_toList]

theorem literals?_intercalate (hclose : ∀ rest, separator ++ rest ≠ close) (s : String)
    (ss : List String) :
    literals? separator close (separator.intercalate ((s :: ss).map Json.quoted) ++ close) =
      some ((s :: ss).map quote) := by
  induction ss generalizing s with
  | nil => simpa using literals?_close s
  | cons t ss ih =>
    have hmore := literals?_separator s
      (hclose (separator.intercalate ((t :: ss).map Json.quoted) ++ close))
    rw [ih t] at hmore
    simpa using hmore

end

section
variable {separator : String} {ss ts : List String}

theorem toList_intercalate_quote : (separator.intercalate (ss.map quote)).toList =
    separator.toList.intercalate (ss.map Json.quoted) := by
  have hquoted : ss.map (String.toList ∘ quote) = ss.map Json.quoted :=
    List.map_congr_left fun s _ => toList_quote s
  rw [String.toList_intercalate, List.map_map, hquoted]

/-- **String literals are read back**, whatever is in the strings, if what closes the text cannot be
    taken for a separator. -/
theorem strings?_intercalate (separator : String) {close : List Char}
    (hclose : ∀ rest, separator.toList ++ rest ≠ close) (ss : List String) :
    strings? separator.toList close ((separator.intercalate (ss.map quote)).toList ++ close) =
      some (ss.map quote) := by
  rw [toList_intercalate_quote]
  cases ss with
  | nil => simp [strings?]
  | cons s ss =>
    have hne : separator.toList.intercalate ((s :: ss).map Json.quoted) ++ close ≠ close := by
      rw [Ne, List.append_left_eq_self]
      cases ss <;> simp [Json.quoted]
    rw [strings?, if_neg hne, literals?_intercalate hclose]

theorem intercalate_quote_inj (hne : separator ≠ "")
    (h : separator.intercalate (ss.map quote) = separator.intercalate (ts.map quote)) : ss = ts := by
  have hclose (rest : List Char) : separator.toList ++ rest ≠ [] := by simp [hne]
  have hread := strings?_intercalate separator hclose
  have hss := hread ss
  rw [h, hread ts] at hss
  exact (quote_injective.list_map (Option.some.inj hss)).symm

end

/-! ## The alternatives of a type -/

/-- The string literals of a union, or of a union in an array. -/
def alternatives? (type : String) : Option (List String) :=
  match type.toList.dropPrefix? "Array<".toList with
  | some rest => strings? " | ".toList ">".toList rest
  | none => strings? " | ".toList [] type.toList

theorem union_eq (values : List String) :
    union values = " | ".intercalate ((valueSet values).map quote) := rfl

/-- A union that is not empty starts with a quote. -/
theorem head?_union (vs : List String) : ∀ c ∈ (union vs).toList.head?, c = '"' := by
  intro c hc
  rw [union_eq, toList_intercalate_quote] at hc
  cases hset : valueSet vs with
  | nil => simp [hset] at hc
  | cons s ss => cases ss <;> simp [hset, Json.quoted] at hc <;> exact hc.symm

/-- No union starts like an array. -/
theorem union_ne_array (vs : List String) (rest : List Char) : (union vs).toList ≠ "Array<".toList ++ rest := by
  intro h
  have hhead := head?_union vs 'A' (by rw [h]; rfl)
  cases hhead

theorem alternatives?_union : alternatives? (union vs) = some ((valueSet vs).map quote) := by
  have hclose (rest : List Char) : " | ".toList ++ rest ≠ [] := by simp
  have hread := strings?_intercalate " | " hclose (valueSet vs)
  rw [List.append_nil, ← union_eq] at hread
  unfold alternatives?
  split
  · next rest hdrop =>
    obtain ⟨front, hfront, hbeq⟩ := List.dropPrefix?_eq_some_iff.1 hdrop
    rw [eq_of_beq hbeq] at hfront
    exact absurd hfront (union_ne_array vs rest)
  · exact hread

theorem alternatives?_array :
    alternatives? ("Array<" ++ union vs ++ ">") = some ((valueSet vs).map quote) := by
  have hclose (rest : List Char) : " | ".toList ++ rest ≠ ">".toList := by simp
  have hread := strings?_intercalate " | " hclose (valueSet vs)
  have hdrop := List.dropPrefix?_append_of_beq ((union vs).toList ++ ">".toList)
    (beq_self_eq_true "Array<".toList)
  rw [alternatives?, String.toList_append, String.toList_append, List.append_assoc, hdrop]
  exact hread

/-! ## Flags with declared values -/

/-- A flag declares values, and has the given defaults. -/
inductive Declares : Flag → List String → List String → Prop
  | enum (values : List String) (value : String) : Declares (.enum values value) values [value]
  | abTest (variants : List String) (value : String) :
    Declares (.abTest variants value) variants [value]
  | tag (values value : List String) : Declares (.tag values value) values value

variable {f g : Flag} {as bs : List String}

theorem Declares.typeLiteral_eq (h : f.Declares vs as) :
    f.typeLiteral = if f.kind = "tag" then "Array<" ++ union vs ++ ">" else union vs := by
  cases h <;> rfl

theorem Declares.defaultLiteral_eq (h : f.Declares vs as) (hf : f.kind = "tag") :
    f.defaultLiteral = "[" ++ ", ".intercalate (as.mergeSort.map quote) ++ "]" := by
  cases h with
  | tag => rfl
  | enum | abTest => simp [kind] at hf

theorem checkMember_eq_ok_iff {value : String} :
    checkMember vs value = .ok () ↔ vs ≠ [] ∧ value ∈ vs := by
  unfold checkMember
  split
  · simp_all
  · split <;> simp_all

/-- A flag is in order if there are values, and its defaults are among them. -/
theorem Declares.check_iff (h : f.Declares vs as) :
    f.check = .ok () ↔ vs ≠ [] ∧ ∀ a ∈ as, a ∈ vs := by
  cases h with
  | enum | abTest => rw [check, checkMember_eq_ok_iff, List.forall_mem_singleton]
  | tag =>
    rw [check]
    split
    · simp_all
    · rw [forM_eq_ok_iff]
      simp_all [checkMember_eq_ok_iff]

theorem Declares.alternatives?_eq (h : f.Declares vs as) :
    alternatives? f.typeLiteral = some ((valueSet vs).map quote) := by
  rw [h.typeLiteral_eq]
  split
  · exact alternatives?_array
  · exact alternatives?_union

/-- A value is declared if its literal is one of the alternatives. -/
theorem quote_mem_iff {s : String} : quote s ∈ (valueSet vs).map quote ↔ s ∈ vs := by
  rw [List.mem_map_of_injective quote_injective, mem_valueSet]

theorem union_eq_iff : union vs = union ws ↔ ∀ s, s ∈ vs ↔ s ∈ ws := by
  rw [← valueSet_eq_iff, union_eq, union_eq]
  constructor
  · exact intercalate_quote_inj (by decide)
  · intro h
    rw [h]

/-- The types of two flags are one text if both or neither are those of tag flags, and their values are
    the same. -/
theorem Declares.typeLiteral_eq_iff (hf : f.Declares vs as) (hg : g.Declares ws bs) :
    f.typeLiteral = g.typeLiteral ↔
      (f.kind = "tag" ↔ g.kind = "tag") ∧ ∀ s, s ∈ vs ↔ s ∈ ws := by
  have hne (vs ws : List String) : "Array<" ++ union vs ++ ">" ≠ union ws := by
    intro h
    refine union_ne_array ws ((union vs).toList ++ ">".toList) ?_
    rw [← h, String.toList_append, String.toList_append, List.append_assoc]
  rw [hf.typeLiteral_eq, hg.typeLiteral_eq, ← union_eq_iff]
  by_cases hft : f.kind = "tag"
  · by_cases hgt : g.kind = "tag"
    · simp [hft, hgt]
    · simpa [hft, hgt] using hne vs ws
  · by_cases hgt : g.kind = "tag"
    · simpa [hft, hgt] using (hne ws vs).symm
    · simp [hft, hgt]

theorem Declares.defaultLiteral_eq_iff (hf : f.Declares vs as) (hg : g.Declares ws bs)
    (hft : f.kind = "tag") (hgt : g.kind = "tag") :
    f.defaultLiteral = g.defaultLiteral ↔ as.Perm bs := by
  rw [hf.defaultLiteral_eq hft, hg.defaultLiteral_eq hgt, ← mergeSort_eq_iff, String.append_left_inj,
    String.append_right_inj]
  constructor
  · exact intercalate_quote_inj (by decide)
  · intro h
    rw [h]

/-- **The texts of declared values are canonical.** The types of two flags are one text exactly if both
    or neither are tag flags and they declare the same values, in whatever order, however often, and
    with whatever characters in them. The defaults of two tag flags are one text exactly if they are
    the same but for their order. And a flag is in order exactly if it declares a value and its
    defaults, as literals, are among the alternatives that are read back from its type. -/
theorem valueSets_canonical (hf : f.Declares vs as) (hg : g.Declares ws bs) :
    (f.typeLiteral = g.typeLiteral ↔
      (f.kind = "tag" ↔ g.kind = "tag") ∧ ∀ s, s ∈ vs ↔ s ∈ ws) ∧
    (f.kind = "tag" → g.kind = "tag" → (f.defaultLiteral = g.defaultLiteral ↔ as.Perm bs)) ∧
    (f.check = .ok () ↔ vs ≠ [] ∧ ∃ alternatives,
      alternatives? f.typeLiteral = some alternatives ∧ ∀ a ∈ as, quote a ∈ alternatives) := by
  refine ⟨hf.typeLiteral_eq_iff hg, hf.defaultLiteral_eq_iff hg, ?_⟩
  rw [hf.check_iff, hf.alternatives?_eq]
  simp only [Option.some.injEq, exists_eq_left', quote_mem_iff]

/-- One value that looks like two when it is not quoted, in a tag flag that has both besides. -/
theorem valueSets_canonical_quotes :
    let joined := "a\" | \"b"
    let f : Flag := .tag ["b", joined, "a", "b"] ["b", "a"]
    let g : Flag := .tag ["a", "b", joined] ["a", "b"]
    let h : Flag := .tag [joined] []
    f.typeLiteral = g.typeLiteral ∧ f.defaultLiteral = g.defaultLiteral ∧ f.check = .ok () ∧
      h.typeLiteral ≠ (Flag.tag ["a", "b"] []).typeLiteral := by
  intro joined f g h
  have hf : f.Declares ["b", joined, "a", "b"] ["b", "a"] := .tag _ _
  have hg : g.Declares ["a", "b", joined] ["a", "b"] := .tag _ _
  obtain ⟨htype, hdefault, hcheck⟩ := valueSets_canonical hf hg
  have hdeclared : ∀ s ∈ ["b", joined, "a", "b"], s ∈ ["a", "b", joined] := by decide
  have hdeclared' : ∀ s ∈ ["a", "b", joined], s ∈ ["b", joined, "a", "b"] := by decide
  have hdefaults : ∀ s ∈ ["b", "a"], s ∈ ["b", joined, "a", "b"] := by decide
  refine ⟨htype.2 ⟨Iff.rfl, fun s => ⟨hdeclared s, hdeclared' s⟩⟩, (hdefault rfl rfl).2 (.swap _ _ _),
    ?_, ?_⟩
  · refine hcheck.2 ⟨List.cons_ne_nil _ _, _, hf.alternatives?_eq, fun s hs => ?_⟩
    exact quote_mem_iff.2 (hdefaults s hs)
  · intro heq
    have hsame := (valueSets_canonical (.tag [joined] []) (.tag ["a", "b"] [])).1.1 heq
    exact absurd ((hsame.2 "a").2 (by decide)) (by decide)

end Flag

end TypedFlags
