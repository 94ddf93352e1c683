import TypedFlags.Proofs.Literal.Relaxed
/-!
# One comma too many

A text that a program writes as an object literal takes one liberty at most: a comma behind the last
entry, so that all entries look alike. Everything before that comma is strict (`Strict`), and strict
texts can be put together piece by piece (`Strict.append`), each shown to be one for itself. A text
that writes a document is one of them (`strict_of_isText`).
-/

set_option autoImplicit false

namespace TypedFlags.Literal

open Json (isBlank isSign Passes IsText)

/-- A text of pieces that take no liberty. -/
def Strict (text : List Char) : Prop :=
  ∃ pieces : List Piece, pieces.flatMap Piece.relaxed = text ∧ pieces.flatMap Piece.strict = text

theorem Strict.append {s t : List Char} (hs : Strict s) (ht : Strict t) : Strict (s ++ t) := by
  obtain ⟨ps, hps, hps'⟩ := hs
  obtain ⟨qs, hqs, hqs'⟩ := ht
  exact ⟨ps ++ qs, by rw [List.flatMap_append, hps, hqs], by rw [List.flatMap_append, hps', hqs']⟩

theorem strict_nil : Strict [] := ⟨[], rfl, rfl⟩

theorem Strict.cons {c : Char} {text : List Char} (hc : c ≠ '"' ∧ c ≠ '\'') (h : Strict text) :
    Strict (c :: text) := by
  obtain ⟨ps, hps, hps'⟩ := h
  exact ⟨.sign c hc :: ps, by rw [List.flatMap_cons, hps]; rfl, by rw [List.flatMap_cons, hps']; rfl⟩

theorem ne_quotes_of_isBlank {c : Char} (h : isBlank c = true) : c ≠ '"' ∧ c ≠ '\'' :=
  ⟨(plain_of_isBlank h).ne (by decide), (plain_of_isBlank h).ne (by decide)⟩

theorem ne_quotes_of_isSign {c : Char} (h : isSign c = true) : c ≠ '"' ∧ c ≠ '\'' := by
  constructor <;> rintro rfl <;> exact absurd h (by decide)

theorem strict_of_passes {b b' : Json.Before} {text rest : List Char} (h : Passes b text b' rest)
    (hrest : Strict rest) : Strict text := by
  induction h with
  | refl => exact hrest
  | blank hc _ ih => exact (ih hrest).cons (ne_quotes_of_isBlank hc)
  | @string _ _ body text _ hb _ ih =>
    have hstring : Strict ('"' :: (body ++ ['"'])) :=
      ⟨[.double body hb], List.flatMap_singleton .., List.flatMap_singleton ..⟩
    simpa using hstring.append (ih hrest)
  | colon _ ih => exact (ih hrest).cons (by decide)
  | comma _ ih => exact (ih hrest).cons (by decide)
  | close hc _ _ ih => exact (ih hrest).cons (by rcases hc with rfl | rfl <;> decide)
  | sign hc _ ih => exact (ih hrest).cons (ne_quotes_of_isSign hc)

theorem strict_of_isText {v : Json} {text : List Char} (h : IsText v text)
    (hd : v.depth ≤ Json.maxDepth) : Strict text := by
  have hread : Json.readValue (String.ofList text) = .ok v.settle :=
    Json.IsText.readValue (by rwa [String.toList_ofList]) hd
  obtain ⟨b, hpass⟩ := Json.passes_of_readValue hread
  rw [String.toList_ofList] at hpass
  exact strict_of_passes hpass strict_nil

/-- A text that writes a document is read as what it writes. -/
theorem read_of_isText {doc : Json} {text : List Char} (h : IsText doc text)
    (hd : doc.depth ≤ Json.maxDepth) : Literal.read (String.ofList text) = .ok doc.settle := by
  obtain ⟨pieces, hrelaxed, hstrict⟩ := strict_of_isText h hd
  have hread : Json.readValue (String.ofList text) = .ok doc.settle :=
    Json.IsText.readValue (by rwa [String.toList_ofList]) hd
  obtain ⟨b, hpass⟩ := Json.passes_of_readValue hread
  rw [String.toList_ofList, ← hstrict] at hpass
  rw [Literal.read, String.toList_ofList, ← hrelaxed, normalize_relaxed hpass, hstrict, hread]

/-- A strict text with a comma before its last bracket is read as what it writes without the comma. -/
theorem read_spare {doc : Json} {text gap : List Char} {close : Char} (htext : Strict text)
    (hg : ∀ c ∈ gap, isBlank c = true) (hc : close = '}' ∨ close = ']')
    (hdoc : IsText doc (text ++ (gap ++ [close]))) (hd : doc.depth ≤ Json.maxDepth) :
    Literal.read (String.ofList (text ++ ',' :: (gap ++ [close]))) = .ok doc.settle := by
  obtain ⟨pieces, hrelaxed, hstrict⟩ := htext
  have hread : Json.readValue (String.ofList (text ++ (gap ++ [close]))) = .ok doc.settle :=
    Json.IsText.readValue (by rwa [String.toList_ofList]) hd
  obtain ⟨b, hpass⟩ := Json.passes_of_readValue hread
  -- The comma and the bracket are one more piece.
  have hrelaxed' : (pieces ++ [Piece.spare gap close hg hc]).flatMap Piece.relaxed =
      text ++ ',' :: (gap ++ [close]) := by
    rw [List.flatMap_append, hrelaxed]
    simp [Piece.relaxed]
  have hstrict' : (pieces ++ [Piece.spare gap close hg hc]).flatMap Piece.strict =
      text ++ (gap ++ [close]) := by
    rw [List.flatMap_append, hstrict]
    simp [Piece.strict]
  rw [String.toList_ofList, ← hstrict'] at hpass
  rw [Literal.read, String.toList_ofList, ← hrelaxed', normalize_relaxed hpass, hstrict', hread]

end TypedFlags.Literal
