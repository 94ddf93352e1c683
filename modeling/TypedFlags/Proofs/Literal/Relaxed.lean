import TypedFlags.Proofs.Json.Printing
import TypedFlags.Proofs.Json.Reading
import TypedFlags.Proofs.Literal.Pieces
/-!
# A relaxed text means what its strict form means

Each of the three replacements takes back the liberties of one kind, in one piece after the other:
the first turns the relaxed form of each piece into the one without single quotes
(`singleQuotes_piece`), the second quotes the keys (`bareKeys_piece`), and the third gives the strict
form (`trailingCommas_piece`).

A replacement could also go wrong by finding something where there is no such piece. The first one
cannot, as no apostrophe stands outside strings. The others look further than one character, but not
beyond a mark, and what they find up to there they would find in the strict text: a colon with no
string before it, or a closing bracket behind a comma. **The passage over the strict text forbids
both.**
-/

set_option autoImplicit false

namespace TypedFlags.Literal

open Json (isBlank Passes StringText)

/-! ## Running a replacement over a piece -/

section
variable {other : List Char → Option (List Char × List Char)}
  {shorter : ∀ {text out rest : List Char}, other text = some (out, rest) →
    rest.length < text.length}

theorem apply_append_plain (hother : ∀ {c : Char}, Plain c → ∀ tail, other (c :: tail) = none)
    {s : List Char} (hs : ∀ c ∈ s, Plain c) (rest : List Char) :
    (outsideStrings other shorter).apply (s ++ rest) =
      s ++ (outsideStrings other shorter).apply rest := by
  induction s with
  | nil => rfl
  | cons c s ih =>
    rw [List.forall_mem_cons] at hs
    rw [List.cons_append, apply_kept (hs.1.ne (by decide)) (hother hs.1 _), ih hs.2,
      List.cons_append]

theorem apply_append_string {body : List Char} (h : StringText body) (rest : List Char) :
    (outsideStrings other shorter).apply ('"' :: (body ++ ['"']) ++ rest) =
      '"' :: (body ++ ['"']) ++ (outsideStrings other shorter).apply rest := by
  simpa using apply_string h rest

theorem apply_of_other {c : Char} {tail out rest : List Char} (hc : c ≠ '"')
    (h : other (c :: tail) = some (out, rest)) :
    (outsideStrings other shorter).apply (c :: tail) =
      out ++ (outsideStrings other shorter).apply rest := by
  apply Replacement.apply_of_some
  simp [outsideStrings, doubleQuoted?, hc, h]

end

/-- A replacement that takes each piece from one form to another does so with all of them. -/
theorem apply_pieces {r : Replacement} {form form' : Piece → List Char} {b' : Json.Before}
    (hpiece : ∀ {b : Json.Before} {piece : Piece} {pieces : List Piece},
      Passes b (piece.strict ++ pieces.flatMap Piece.strict) b' [] →
      r.apply (form piece ++ pieces.flatMap form) = form' piece ++ r.apply (pieces.flatMap form))
    {b : Json.Before} {pieces : List Piece} (h : Passes b (pieces.flatMap Piece.strict) b' []) :
    r.apply (pieces.flatMap form) = pieces.flatMap form' := by
  induction pieces generalizing b with
  | nil => exact Replacement.apply_nil r
  | cons piece pieces ih =>
    rw [List.flatMap_cons] at h
    obtain ⟨_, hbehind⟩ := passes_behind_piece piece h
    rw [List.flatMap_cons, hpiece h, ih hbehind, List.flatMap_cons]

/-! ## Single quotes -/

theorem unescapeQuote_cons {q c : Char} {text : List Char} (h : c ≠ '\\' ∨ text.head? ≠ some q) :
    unescapeQuote q (c :: text) = c :: unescapeQuote q text := by
  cases text with
  | nil => rfl
  | cons d text =>
    rw [unescapeQuote, if_neg]
    rintro ⟨hc, rfl⟩
    rcases h with h | h
    · exact h hc
    · exact h rfl

theorem unescapeQuote_of_not_mem {q : Char} {text : List Char} (h : q ∉ text) :
    unescapeQuote q text = text := by
  induction text with
  | nil => rfl
  | cons c text ih =>
    rw [List.mem_cons, not_or] at h
    rw [unescapeQuote_cons, ih h.2]
    refine .inr fun hq => h.2 (List.mem_of_mem_head? hq)

theorem escapeDouble_of_not_mem {text : List Char} (h : '"' ∉ text) : escapeDouble text = text := by
  induction text with
  | nil => rfl
  | cons c text ih =>
    rw [List.mem_cons, not_or] at h
    rw [escapeDouble, List.flatMap_cons, if_neg (Ne.symm h.1)]
    exact congrArg (c :: ·) (ih h.2)

/-- No part starts with an apostrophe, so what stands before one cannot escape it. -/
theorem head?_relaxed (parts : List Part) : (parts.flatMap Part.relaxed).head? ≠ some '\'' := by
  cases parts with
  | nil => simp
  | cons part parts =>
    cases part with
    | plain c h => simpa [Part.relaxed] using h.1
    | apostrophe => simp [Part.relaxed]
    | escape c => simp [Part.relaxed]

theorem unescapeQuote_relaxed (parts : List Part) :
    unescapeQuote '\'' (parts.flatMap Part.relaxed) = parts.flatMap Part.strict := by
  induction parts with
  | nil => rfl
  | cons part parts ih =>
    have hhead := head?_relaxed parts
    rw [List.flatMap_cons, List.flatMap_cons, ← ih]
    cases part with
    | plain c h => exact unescapeQuote_cons (.inr hhead)
    | apostrophe => simp [Part.relaxed, Part.strict, unescapeQuote]
    | escape c h =>
      have hc : unescapeQuote '\'' (c :: parts.flatMap Part.relaxed) = _ :=
        unescapeQuote_cons (.inr hhead)
      have hb : unescapeQuote '\'' ('\\' :: c :: parts.flatMap Part.relaxed) = _ :=
        unescapeQuote_cons (.inr (by simpa using h.1))
      exact hb.trans (congrArg ('\\' :: ·) hc)

theorem not_mem_strict (parts : List Part) : '"' ∉ parts.flatMap Part.strict := by
  rw [List.mem_flatMap]
  rintro ⟨part, -, hm⟩
  cases part with
  | plain c h => exact h.2.1 (List.mem_singleton.1 hm).symm
  | apostrophe => exact absurd (List.mem_singleton.1 hm) (by decide)
  | escape c h => simp [Part.strict, Part.relaxed, h.2.1.symm] at hm

theorem requote_relaxed (parts : List Part) :
    requote (parts.flatMap Part.relaxed) = parts.flatMap Part.strict := by
  have hnot := not_mem_strict parts
  rw [requote, unescapeQuote_relaxed, unescapeQuote_of_not_mem hnot, escapeDouble_of_not_mem hnot]

theorem quotedBody_relaxed (parts : List Part) (rest : List Char) :
    quotedBody '\'' (parts.flatMap Part.relaxed ++ '\'' :: rest) =
      some (parts.flatMap Part.relaxed, rest) := by
  induction parts with
  | nil => exact quotedBody_quote rest
  | cons part parts ih =>
    rw [List.flatMap_cons, List.append_assoc]
    cases part with
    | plain c h =>
      rw [Part.relaxed, List.singleton_append, quotedBody_plain _ h.1 h.2.2, ih]
      rfl
    | apostrophe =>
      rw [Part.relaxed, List.cons_append, List.singleton_append,
        quotedBody_escape _ (by decide) (by decide), ih]
      rfl
    | escape c h =>
      rw [Part.relaxed, List.cons_append, List.singleton_append,
        quotedBody_escape _ (by decide) h.2.2, ih]
      rfl

theorem singleQuoted?_relaxed (parts : List Part) (rest : List Char) :
    singleQuoted? ('\'' :: (parts.flatMap Part.relaxed ++ '\'' :: rest)) =
      some ('"' :: parts.flatMap Part.strict ++ ['"'], rest) := by
  simp [singleQuoted?, quotedBody_relaxed, requote_relaxed]

theorem singleQuoted?_of_ne {c : Char} (h : c ≠ '\'') (tail : List Char) :
    singleQuoted? (c :: tail) = none := by
  simp [singleQuoted?, h]

theorem singleQuotes_piece (piece : Piece) (rest : List Char) :
    singleQuotes.apply (piece.relaxed ++ rest) = piece.requoted ++ singleQuotes.apply rest := by
  have hplain {s : List Char} (hs : ∀ c ∈ s, Plain c) (rest : List Char) :
      singleQuotes.apply (s ++ rest) = s ++ singleQuotes.apply rest :=
    apply_append_plain (fun hc => singleQuoted?_of_ne (hc.ne (by decide))) hs rest
  have hsign {c : Char} (hd : c ≠ '"') (hs : c ≠ '\'') (rest : List Char) :
      singleQuotes.apply (c :: rest) = c :: singleQuotes.apply rest :=
    apply_kept hd (singleQuoted?_of_ne hs rest)
  cases piece with
  | sign c h => exact hsign h.1 h.2 rest
  | double body h => exact apply_append_string h rest
  | single parts =>
    have hsingle := singleQuoted?_relaxed parts rest
    simp only [Piece.relaxed, List.cons_append, List.append_assoc, List.nil_append]
    exact apply_of_other (by decide) hsingle
  | bare key =>
    have hlead : key.lead ≠ '\'' := by rcases key.lead_eq with h | h <;> rw [h] <;> decide
    exact (hsign key.lead_ne_quote hlead _).trans
      (congrArg (key.lead :: ·) (hplain key.plain_relaxed rest))
  | spare gap close hg hc =>
    exact (hsign (by decide) (by decide) _).trans
      (congrArg (',' :: ·) (hplain (plain_close hg hc) rest))

/-! ## White space around keys and brackets -/

theorem isWhiteSpace_of_isBlank {c : Char} (h : isBlank c = true) :
    Text.isWhiteSpace c = true := by
  simp only [isBlank, Bool.or_eq_true, decide_eq_true_eq] at h
  rcases h with ((rfl | rfl) | rfl) | rfl <;> decide

section
variable {s : List Char} (hs : ∀ c ∈ s, isBlank c = true) {c : Char}
  (hc : Text.isWhiteSpace c = false) (tail : List Char)
include hs hc

theorem gap_append : gap (s ++ c :: tail) = s := by
  rw [gap, List.takeWhile_append_of_pos fun d hd => isWhiteSpace_of_isBlank (hs d hd),
    List.takeWhile_cons_of_neg (by simp [hc]), List.append_nil]

theorem afterGap_append : afterGap (s ++ c :: tail) = c :: tail := by
  rw [afterGap, List.dropWhile_append_of_pos fun d hd => isWhiteSpace_of_isBlank (hs d hd),
    List.dropWhile_cons_of_neg (by simp [hc])]

end

theorem isWhiteSpace_close {close : Char} (hc : close = '}' ∨ close = ']') :
    Text.isWhiteSpace close = false := by
  rcases hc with rfl | rfl <;> decide

/-! ## Bare keys -/

theorem bareKey?_of_plain {c : Char} (hc : Plain c) (tail : List Char) :
    bareKey? (c :: tail) = none := by
  have hlead : ¬ (c = '{' ∨ c = ',') := not_or.2 ⟨hc.ne (by decide), hc.ne (by decide)⟩
  rw [bareKey?, if_neg hlead]

/-- A brace or comma that is no piece's has no bare key behind it: in the strict text there would be
    a colon behind it, and no string between them. -/
theorem bareKey?_sign {b b' : Json.Before} {c : Char} {pieces : List Piece}
    (h : Passes b (c :: pieces.flatMap Piece.strict) b' []) :
    bareKey? (c :: pieces.flatMap Piece.requoted) = none := by
  rw [Option.eq_none_iff_forall_ne_some]
  intro r hr
  obtain ⟨hc, front, tail, hfront, htext⟩ := bareKey?_front hr
  obtain ⟨b, hb, hp⟩ := passes_behind_lead hc h
  have hcolon : ∀ d ∈ front ++ [':'], Plain d := by
    rw [List.forall_mem_append, List.forall_mem_singleton]
    exact ⟨hfront, by decide⟩
  rw [← List.singleton_append, ← List.append_assoc] at htext
  obtain ⟨tail', hstrict⟩ := strict_of_front (.inl rfl) hcolon htext
  have hquote : '"' ∉ front := fun hm => (hfront _ hm).ne (by decide) rfl
  rw [hstrict, List.append_assoc, List.singleton_append] at hp
  exact not_passes_colon hb hquote hp

theorem isWhiteSpace_of_isKeyStart {c : Char} (h : isKeyStart c = true) :
    Text.isWhiteSpace c = false := by
  simp only [isKeyStart, Bool.or_eq_true, decide_eq_true_eq] at h
  rcases h with (halpha | rfl) | rfl
  · exact isWhiteSpace_of_isSign (by simp [Json.isSign, Char.isAlphanum, halpha])
  · decide
  · decide

theorem isKeyPart_of_isBlank {c : Char} (h : isBlank c = true) : isKeyPart c = false := by
  simp only [isBlank, Bool.or_eq_true, decide_eq_true_eq] at h
  rcases h with ((rfl | rfl) | rfl) | rfl <;> decide

/-- The identifier ends where the blanks or the colon behind it start. -/
theorem BareKey.span_name (key : BareKey) (rest : List Char) :
    (key.others ++ (key.after ++ ':' :: rest)).takeWhile isKeyPart = key.others ∧
      (key.others ++ (key.after ++ ':' :: rest)).dropWhile isKeyPart =
        key.after ++ ':' :: rest := by
  rw [List.takeWhile_append_of_pos key.isKeyPart_others,
    List.dropWhile_append_of_pos key.isKeyPart_others]
  have hblank := key.blank_after
  generalize key.after = after at hblank
  cases after with
  | nil =>
    have hcolon : ¬ isKeyPart ':' = true := by decide
    simp [hcolon]
  | cons c after =>
    have hc : ¬ isKeyPart c = true := by simp [isKeyPart_of_isBlank (hblank c List.mem_cons_self)]
    simp [hc]

theorem keyAndColon?_key (key : BareKey) (rest : List Char) :
    keyAndColon? (key.before ++ (key.name ++ (key.after ++ ':' :: rest))) =
      some (key.before ++ ('"' :: (key.name ++ ['"']) ++ (key.after ++ [':'])), rest) := by
  have hfirst := isWhiteSpace_of_isKeyStart key.isKeyStart_first
  have hcolon : Text.isWhiteSpace ':' = false := by decide
  obtain ⟨htake, hdrop⟩ := key.span_name rest
  rw [BareKey.name, List.cons_append, keyAndColon?, afterGap_append key.blank_before hfirst]
  simp only [key.isKeyStart_first, if_true, hdrop, htake, afterGap_append key.blank_after hcolon,
    gap_append key.blank_after hcolon, gap_append key.blank_before hfirst]
  simp

theorem bareKey?_key (key : BareKey) (rest : List Char) :
    bareKey? ((Piece.bare key).requoted ++ rest) = some ((Piece.bare key).keyed, rest) := by
  have hkey := keyAndColon?_key key rest
  simp only [Piece.requoted, Piece.relaxed, List.cons_append, List.append_assoc, List.nil_append]
  rw [bareKey?, if_pos key.lead_eq, hkey]
  rfl

/-- Behind the comma before a closing bracket there is no key. -/
theorem bareKey?_spare {gap : List Char} {close : Char} (hg : ∀ c ∈ gap, isBlank c = true)
    (hc : close = '}' ∨ close = ']') (rest : List Char) :
    bareKey? (',' :: (gap ++ [close] ++ rest)) = none := by
  have hstart : ¬ isKeyStart close = true := by rcases hc with rfl | rfl <;> decide
  rw [List.append_assoc, List.singleton_append, bareKey?, if_pos (.inr rfl), keyAndColon?,
    afterGap_append hg (isWhiteSpace_close hc)]
  simp [hstart]

theorem bareKeys_piece {b b' : Json.Before} {piece : Piece} {pieces : List Piece}
    (h : Passes b (piece.strict ++ pieces.flatMap Piece.strict) b' []) :
    bareKeys.apply (piece.requoted ++ pieces.flatMap Piece.requoted) =
      piece.keyed ++ bareKeys.apply (pieces.flatMap Piece.requoted) := by
  generalize hrest : pieces.flatMap Piece.requoted = rest
  cases piece with
  | sign c hc => exact hrest ▸ apply_kept hc.1 (bareKey?_sign h)
  | double body hb => exact apply_append_string hb rest
  | single parts => exact apply_append_string (stringText_strict parts) rest
  | bare key => exact apply_of_other key.lead_ne_quote (bareKey?_key key rest)
  | spare gap close hg hc =>
    have hclose : bareKeys.apply (gap ++ [close] ++ rest) = gap ++ [close] ++ bareKeys.apply rest :=
      apply_append_plain bareKey?_of_plain (plain_close hg hc) rest
    exact (apply_kept (by decide) (bareKey?_spare hg hc rest)).trans (congrArg (',' :: ·) hclose)

/-! ## Commas before closing brackets -/

theorem trailingComma?_of_ne {c : Char} (h : c ≠ ',') (tail : List Char) :
    trailingComma? (c :: tail) = none := by
  simp [trailingComma?, h]

theorem trailingComma?_of_plain {c : Char} (hc : Plain c) (tail : List Char) :
    trailingComma? (c :: tail) = none := trailingComma?_of_ne (hc.ne (by decide)) tail

theorem trailingComma?_comma (text : List Char) :
    trailingComma? (',' :: text) = match afterGap text with
      | [] => none
      | c :: rest => if c = '}' ∨ c = ']' then some (gap text ++ [c], rest) else none := rfl

/-- A comma that is no piece's has no closing bracket behind it: in the strict text there would be
    one too. -/
theorem trailingComma?_sign {b b' : Json.Before} {c : Char} {pieces : List Piece}
    (h : Passes b (c :: pieces.flatMap Piece.strict) b' []) :
    trailingComma? (c :: pieces.flatMap Piece.keyed) = none := by
  rw [Option.eq_none_iff_forall_ne_some]
  intro r hr
  obtain ⟨rfl, space, close, tail, hspace, hclose, htext⟩ := trailingComma?_front hr
  have hp := passes_behind_comma h
  have hfront : ∀ d ∈ space ++ [close], Plain d := by
    rw [List.forall_mem_append, List.forall_mem_singleton]
    refine ⟨fun d hd => plain_of_class (hspace d hd) (by decide), ?_⟩
    rcases hclose with rfl | rfl <;> decide
  rw [← List.singleton_append, ← List.append_assoc] at htext
  obtain ⟨tail', hstrict⟩ := strict_of_front (.inr rfl) hfront htext
  rw [hstrict, List.append_assoc, List.singleton_append] at hp
  exact not_passes_close hspace hclose hp

theorem trailingComma?_spare {gap : List Char} {close : Char} (hg : ∀ c ∈ gap, isBlank c = true)
    (hc : close = '}' ∨ close = ']') (rest : List Char) :
    trailingComma? ((Piece.spare gap close hg hc).keyed ++ rest) =
      some ((Piece.spare gap close hg hc).strict, rest) := by
  have hspace := isWhiteSpace_close hc
  simp only [Piece.keyed, Piece.relaxed, List.cons_append, List.append_assoc, List.nil_append]
  rw [trailingComma?_comma, afterGap_append hg hspace, gap_append hg hspace]
  simp [hc, Piece.strict]

/-- Behind the comma of a key stands the quote. -/
theorem trailingComma?_key {before : List Char} (hb : ∀ c ∈ before, isBlank c = true)
    (lead : Char) (tail : List Char) : trailingComma? (lead :: (before ++ '"' :: tail)) = none := by
  by_cases hc : lead = ','
  · subst hc
    rw [trailingComma?_comma, afterGap_append hb (by decide)]
    rfl
  · exact trailingComma?_of_ne hc _

theorem trailingCommas_key (key : BareKey) (rest : List Char) :
    trailingCommas.apply ((Piece.bare key).strict ++ rest) =
      (Piece.bare key).strict ++ trailingCommas.apply rest := by
  have hplain {s : List Char} (hs : ∀ c ∈ s, Plain c) (rest : List Char) :
      trailingCommas.apply (s ++ rest) = s ++ trailingCommas.apply rest :=
    apply_append_plain trailingComma?_of_plain hs rest
  have hname (rest : List Char) : trailingCommas.apply ('"' :: (key.name ++ ['"']) ++ rest) =
      '"' :: (key.name ++ ['"']) ++ trailingCommas.apply rest :=
    apply_append_string (stringText_of_plain key.plain_name) rest
  have hlead (rest : List Char) :
      trailingCommas.apply (key.lead :: (key.before ++ ('"' :: (key.name ++ ['"']) ++ rest))) =
        key.lead :: trailingCommas.apply (key.before ++ ('"' :: (key.name ++ ['"']) ++ rest)) :=
    apply_kept key.lead_ne_quote (trailingComma?_key key.blank_before key.lead _)
  have hassoc (rest : List Char) : (Piece.bare key).strict ++ rest =
      key.lead :: (key.before ++ ('"' :: (key.name ++ ['"']) ++ (key.after ++ [':'] ++ rest))) := by
    simp [Piece.strict]
  rw [hassoc, hassoc, hlead, hplain key.plain_before, hname, hplain key.plain_after]

theorem trailingCommas_piece {b b' : Json.Before} {piece : Piece} {pieces : List Piece}
    (h : Passes b (piece.strict ++ pieces.flatMap Piece.strict) b' []) :
    trailingCommas.apply (piece.keyed ++ pieces.flatMap Piece.keyed) =
      piece.strict ++ trailingCommas.apply (pieces.flatMap Piece.keyed) := by
  generalize hrest : pieces.flatMap Piece.keyed = rest
  cases piece with
  | sign c hc => exact hrest ▸ apply_kept hc.1 (trailingComma?_sign h)
  | double body hb => exact apply_append_string hb rest
  | single parts => exact apply_append_string (stringText_strict parts) rest
  | bare key => exact trailingCommas_key key rest
  | spare gap close hg hc => exact apply_of_other (by decide) (trailingComma?_spare hg hc rest)

/-! ## The whole literal -/

theorem normalize_relaxed {b b' : Json.Before} {pieces : List Piece}
    (h : Passes b (pieces.flatMap Piece.strict) b' []) :
    normalize (pieces.flatMap Piece.relaxed) = pieces.flatMap Piece.strict := by
  rw [normalize, apply_pieces (fun _ => singleQuotes_piece _ _) h, apply_pieces bareKeys_piece h,
    apply_pieces trailingCommas_piece h]

/-- **A relaxed text means what its strict form means**: if the strict forms of some pieces write a
    document that is not too deep, then their relaxed forms are read as the value of that
    document. -/
theorem read_relaxed {doc : Json} {pieces : List Piece}
    (h : Json.IsText doc (pieces.flatMap Piece.strict)) (hd : doc.depth ≤ Json.maxDepth) :
    Literal.read (String.ofList (pieces.flatMap Piece.relaxed)) = .ok doc.settle := by
  have hread : Json.readValue (String.ofList (pieces.flatMap Piece.strict)) = .ok doc.settle :=
    Json.IsText.readValue (by rwa [String.toList_ofList]) hd
  obtain ⟨b, hp⟩ := Json.passes_of_readValue hread
  rw [String.toList_ofList] at hp
  rw [Literal.read, String.toList_ofList, normalize_relaxed hp, hread]

/-- All liberties at once, and strings that look like them. -/
theorem read_relaxed_nested :
    let pieces : List Piece := [
      .bare ⟨'{', [' '], '$', ['i', 'd'], [' '], .inl rfl, List.forall_mem_singleton.2 rfl,
        .inr (.inr rfl), List.forall_mem_cons.2 ⟨.inl rfl, List.forall_mem_singleton.2 (.inl rfl)⟩,
        List.forall_mem_singleton.2 rfl⟩,
      .single [.plain '{' (by decide), .plain 'b' (by decide), .plain ':' (by decide), .apostrophe,
        .escape 'n' (by decide)],
      .sign ',' (by decide), .sign '\n' (by decide), .single [.plain 'x' (by decide)],
      .sign ':' (by decide), .sign '[' (by decide),
      .double ['\\', '"', ',', ']']
        (.escape (by decide) (.plain (by decide) (by decide) (.plain (by decide) (by decide) .nil))),
      .sign ',' (by decide), .sign '[' (by decide), .sign ' ' (by decide), .sign ']' (by decide),
      .spare [] ']' (List.forall_mem_nil _) (.inr rfl),
      .spare ['\t'] '}' (List.forall_mem_singleton.2 rfl) (.inl rfl)]
    let doc := Json.object [("$id", .string "\x7bb:'\n"), ("x", .array [.string "\",]", .array []])]
    String.ofList (pieces.flatMap Piece.relaxed) =
        "\x7b $id :'\x7bb:\\'\\n',\n'x':[\"\\\",]\",[ ],],\t\x7d" ∧
      Json.IsText doc (pieces.flatMap Piece.strict) ∧ doc.depth ≤ Json.maxDepth ∧
      Literal.read (String.ofList (pieces.flatMap Piece.relaxed)) = .ok doc.settle := by
  intro pieces doc
  have hdoc : Json.IsText doc (pieces.flatMap Piece.strict) := by
    have hid (rest : List Char) : Json.WriteName "$id" _ rest :=
      @Json.WriteName.intro (' ' :: _) ['$', 'i', 'd'] _ (' ' :: ':' :: rest) rest
        (.blank rfl (.none _)) (Json.spells_flatMap_escape ['$', 'i', 'd']) (.blank rfl (.none _))
    have hx (rest : List Char) : Json.WriteName "x" _ rest :=
      @Json.WriteName.intro ('\n' :: _) ['x'] _ (':' :: rest) rest
        (.blank rfl (.none _)) (Json.spells_flatMap_escape ['x']) (.none _)
    have hs := Json.Writes.string (Json.spells_flatMap_escape ['{', 'b', ':', '\'', '\n'])
    have hy := Json.Writes.string (Json.spells_flatMap_escape ['"', ',', ']'])
    have hnone (rest : List Char) : Json.Writes (.array []) ('[' :: ' ' :: ']' :: rest) rest :=
      .emptyArray (.blank rfl (.none _))
    have hys (rest : List Char) := Json.Writes.array (.more (hy _) (.none _)
      (.last (hnone (']' :: rest)) (.none _)))
    have hend : Json.Gap ['\t', '}'] ['}'] := .blank rfl (.none _)
    exact ⟨[], .object (.more (hid _) (hs _) (.none _) (.last (hx _) (hys _) hend)), .none _⟩
  have hdepth : doc.depth ≤ Json.maxDepth := by decide
  exact ⟨by decide, hdoc, hdepth, read_relaxed hdoc hdepth⟩

end TypedFlags.Literal
