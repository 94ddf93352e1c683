import TypedFlags.Proofs.Except
import TypedFlags.Proofs.Literal.Strict
import TypedFlags.Proofs.Text.Position
/-!
# What normalizing does not touch

Normalizing puts in and takes out quotes, backslashes and commas, and nothing else: **without these a
text and its normal form are the same, line by line** (`remainder_normalize`). This is so for every
text, whether it means anything or not; so a fault that is found in the normal form is on a line that
the text has too.

It is enough to look at what each of the three replacements does at one place (`Keeps`). Between
single quotes the contents are rewritten three times over, and each time it is one of the four
characters that comes or goes.
-/

set_option autoImplicit false

namespace TypedFlags.Literal

/-! ## What there is besides punctuation -/

/-- The characters that normalizing puts in or takes out. -/
def punctuation : List Char := ['"', '\'', '\\', ',']

/-- What there is in a text besides that punctuation. -/
def remainder (text : List Char) : List Char := text.filter (· ∉ punctuation)

theorem remainder_append (s t : List Char) : remainder (s ++ t) = remainder s ++ remainder t :=
  List.filter_append s t

theorem remainder_cons (c : Char) (text : List Char) :
    remainder (c :: text) = if c ∈ punctuation then remainder text else c :: remainder text := by
  rw [remainder, List.filter_cons]
  split <;> simp_all [remainder]

theorem remainder_punctuation {c : Char} (hc : c ∈ punctuation) (text : List Char) :
    remainder (c :: text) = remainder text := by
  rw [remainder_cons, if_pos hc]

/-! ## One place -/

/-- A replacement keeps what there is besides punctuation. -/
def Keeps (replace? : List Char → Option (List Char × List Char)) : Prop :=
  ∀ {text out rest : List Char}, replace? text = some (out, rest) →
    remainder (out ++ rest) = remainder text

theorem quotedBody_eq_some {quote : Char} {text body rest : List Char}
    (h : quotedBody quote text = some (body, rest)) : text = body ++ quote :: rest := by
  fun_induction quotedBody quote text generalizing body rest with
  | case1 | case3 | case4 => cases h
  | case2 =>
    cases h
    rfl
  | case5 _ d tail _ ih =>
    obtain ⟨p, hp, he⟩ := Option.map_eq_some_iff.1 h
    cases he
    rw [ih hp, List.cons_append, List.cons_append]
  | case6 _ tail _ _ ih =>
    obtain ⟨p, hp, he⟩ := Option.map_eq_some_iff.1 h
    cases he
    rw [ih hp, List.cons_append]

theorem keeps_doubleQuoted? : Keeps doubleQuoted? := by
  intro text out rest h
  unfold doubleQuoted? at h
  split at h
  · obtain ⟨p, hp, he⟩ := Option.map_eq_some_iff.1 h
    cases he
    simp [quotedBody_eq_some hp]
  · cases h

theorem remainder_unescapeQuote {quote : Char} (hq : quote ∈ punctuation) (text : List Char) :
    remainder (unescapeQuote quote text) = remainder text := by
  fun_induction unescapeQuote quote text with
  | case1 | case2 => rfl
  | case3 c d tail h ih =>
    obtain ⟨rfl, rfl⟩ := h
    rw [remainder_punctuation hq, ih, remainder_punctuation (by decide), remainder_punctuation hq]
  | case4 c d tail _ ih => rw [remainder_cons, ih, ← remainder_cons]

theorem remainder_escapeDouble (text : List Char) :
    remainder (escapeDouble text) = remainder text := by
  induction text with
  | nil => rfl
  | cons c text ih =>
    rw [escapeDouble, List.flatMap_cons, ← escapeDouble, remainder_append, ih]
    by_cases hc : c = '"'
    · rw [if_pos hc, hc]
      rfl
    · rw [if_neg hc]
      exact (remainder_append [c] text).symm

theorem remainder_requote (body : List Char) : remainder (requote body) = remainder body := by
  rw [requote, remainder_escapeDouble, remainder_unescapeQuote (by decide),
    remainder_unescapeQuote (by decide)]

theorem keeps_singleQuoted? : Keeps singleQuoted? := by
  intro text out rest h
  unfold singleQuoted? at h
  split at h
  · obtain ⟨p, hp, he⟩ := Option.map_eq_some_iff.1 h
    cases he
    have hquote : '"' ∈ punctuation := by decide
    have hapostrophe : '\'' ∈ punctuation := by decide
    rw [quotedBody_eq_some hp]
    simp [remainder_append, remainder_requote, remainder_punctuation hquote,
      remainder_punctuation hapostrophe]
  · cases h

theorem keeps_keyAndColon? : Keeps keyAndColon? := by
  intro text out rest h
  unfold keyAndColon? at h
  split at h
  · cases h
  next c tail hkey =>
  split at h
  · split at h
    · next hcolon =>
      cases h
      have htext : gap text ++ (c :: (tail.takeWhile isKeyPart ++
          (gap (tail.dropWhile isKeyPart) ++ ':' :: rest))) = text := by
        rw [← hcolon, gap_append_afterGap, List.takeWhile_append_dropWhile, ← hkey,
          gap_append_afterGap]
      have hquote : '"' ∈ punctuation := by decide
      refine Eq.trans ?_ (congrArg remainder htext)
      simp [remainder_append, remainder_cons c, remainder_punctuation hquote]
    · cases h
  · cases h

theorem keeps_bareKey? : Keeps bareKey? := by
  intro text out rest h
  unfold bareKey? at h
  split at h
  · cases h
  · split at h
    · obtain ⟨p, hp, he⟩ := Option.map_eq_some_iff.1 h
      cases he
      rw [List.cons_append, remainder_cons, keeps_keyAndColon? hp, ← remainder_cons]
    · cases h

theorem keeps_trailingComma? : Keeps trailingComma? := by
  intro text out rest h
  unfold trailingComma? at h
  split at h
  · next tail =>
    split at h
    · cases h
    next c after hgap =>
    split at h
    · cases h
      rw [List.append_assoc, List.singleton_append, ← hgap, gap_append_afterGap,
        remainder_punctuation (by decide)]
    · cases h
  · cases h

/-! ## The whole text -/

/-- What a replacement keeps at each place, and wherever it finds a string, it keeps in a whole
    text. -/
theorem remainder_apply {other : List Char → Option (List Char × List Char)}
    {shorter : ∀ {text out rest : List Char}, other text = some (out, rest) →
      rest.length < text.length} (hother : Keeps other) (text : List Char) :
    remainder ((outsideStrings other shorter).apply text) = remainder text := by
  fun_induction Replacement.apply (outsideStrings other shorter) text with
  | case1 => rfl
  | case2 c tail out rest hr ih =>
    rw [remainder_append, ih, ← remainder_append]
    rcases Option.or_eq_some_iff.1 hr with hd | ⟨-, ho⟩
    · exact keeps_doubleQuoted? hd
    · exact hother ho
  | case3 c tail _ ih => rw [remainder_cons, ih, ← remainder_cons]

theorem remainder_normal (text : List Char) : remainder (normalize text) = remainder text := by
  rw [normalize, trailingCommas, remainder_apply keeps_trailingComma?, bareKeys,
    remainder_apply keeps_bareKey?, singleQuotes, remainder_apply keeps_singleQuoted?]

theorem map_remainder_lines (text : List Char) :
    (Text.lines text).map remainder = Text.lines (remainder text) :=
  Text.map_filter_lines (by decide) text

theorem count_remainder (text : List Char) : (remainder text).count '\n' = text.count '\n' :=
  List.count_filter (by decide)

/-- The line of a fault is one of the text's own. -/
theorem line_of_read {text : String} {e : Json.Error} (h : Literal.read text = .error e) :
    1 ≤ e.position.line ∧ e.position.line ≤ (normalize text.toList).count '\n' + 1 := by
  rw [Literal.read, Json.readValue, map_eq_error_iff, Json.read, Json.readOutline,
    mapError_eq_error_iff, String.toList_ofList] at h
  obtain ⟨stop, -, rfl⟩ := h
  have hwalk := Text.byteWalk_line 1 0 (Text.byteCount (normalize text.toList) - stop.unread)
    (normalize text.toList)
  rw [Nat.add_comm] at hwalk
  exact hwalk

/-- **Normalizing only touches punctuation.** Without quotes, backslashes and commas a text and its
    normal form are the same; they have as many lines, and line by line they are the same without that
    punctuation. So the line of a fault is a line of the text. -/
theorem remainder_normalize (text : String) :
    remainder (normalize text.toList) = remainder text.toList ∧
      (normalize text.toList).count '\n' = text.toList.count '\n' ∧
      (Text.lines (normalize text.toList)).map remainder =
        (Text.lines text.toList).map remainder ∧
      ∀ e, Literal.read text = .error e →
        1 ≤ e.position.line ∧ e.position.line ≤ (Text.lines text.toList).length := by
  have hsame := remainder_normal text.toList
  have hcount : (normalize text.toList).count '\n' = text.toList.count '\n' := by
    rw [← count_remainder, hsame, count_remainder]
  refine ⟨hsame, hcount, ?_, fun e he => ?_⟩
  · rw [map_remainder_lines, map_remainder_lines, hsame]
  · rw [Text.length_lines, ← hcount]
    exact line_of_read he

/-- A text that is no literal, with strings of both kinds over several lines: the fault is found in the
    third one. -/
theorem remainder_normalize_unfinished :
    let text := "[ 'say \"hi\",\n', \"it's\\\n\", a,\n]"
    ∃ e, Literal.read text = .error e ∧
      remainder (normalize text.toList) = remainder text.toList ∧
      1 ≤ e.position.line ∧ e.position.line ≤ (Text.lines text.toList).length := by
  intro text
  have hbad : (Literal.read text).toBool = false := by decide +kernel
  obtain ⟨hsame, -, -, hline⟩ := remainder_normalize text
  cases he : Literal.read text with
  | ok v =>
    rw [he] at hbad
    cases hbad
  | error e => exact ⟨e, rfl, hsame, hline e he⟩

end TypedFlags.Literal
