import Mathlib.Data.List.Chain
import TypedFlags.Schema.Token
/-!
# Cutting text that was written token by token

A token is cut off the front of a text again if it can be written at all (`Token.Legible`) and what
stands behind it does not run on (`Token.Ends`): a word is not followed by what a word may go on
with, and a `[` not by a `]`. `Token.cut?_spelling` is that fact for one token.

For a whole text the tokens come with the layout behind each (`Spaced`). Layout behind a token ends
it, whatever it is; where there is none, the next one has to (`Token.Meets`), and then the tokens are
read back from the text as they were (`lexemes_spaced`).
-/

set_option autoImplicit false

namespace TypedFlags.Schema

/-- The words that are no names. -/
def keywords : List String :=
  ["type", "interface", "boolean", "integer", "float", "number", "string"]

/-- A name that can be written: it starts with a letter, `_` or `$`, goes on with letters, digits and
    `_`, and is none of the keywords. -/
structure IsName (name : String) : Prop where
  shape : ∃ c cs, name.toList = c :: cs ∧ isWordStart c = true ∧ ∀ d ∈ cs, isWordPart d = true
  notKeyword : name ∉ keywords

theorem isName_iff {name : String} :
    IsName name ↔ (name.toList.head?.any isWordStart = true ∧
      name.toList.tail.all isWordPart = true) ∧ name ∉ keywords := by
  constructor
  · rintro ⟨⟨c, cs, hs, hc, hcs⟩, hk⟩
    rw [hs]
    exact ⟨⟨by simpa using hc, List.all_eq_true.2 hcs⟩, hk⟩
  · rintro ⟨⟨hc, hcs⟩, hk⟩
    refine ⟨?_, hk⟩
    cases hs : name.toList with
    | nil => simp [hs] at hc
    | cons c cs =>
      rw [hs] at hc hcs
      exact ⟨c, cs, rfl, by simpa using hc, List.all_eq_true.1 hcs⟩

instance : DecidablePred IsName := fun _ => decidable_of_iff _ isName_iff.symm

namespace Token

/-- The token is a word: a keyword or an identifier. -/
def IsWord : Token → Prop
  | typeKeyword | interfaceKeyword | primitive _ | identifier _ => True
  | _ => False

/-- The token can be written in a text. -/
def Legible : Token → Prop
  | identifier name => IsName name
  | primitive kind => kind ≠ .unrecognized
  | _ => True

/-- What stands behind a token does not belong to it. -/
def Ends : Token → List Char → Prop
  | typeKeyword, rest | interfaceKeyword, rest | primitive _, rest | identifier _, rest =>
    ∀ c ∈ rest.head?, isWordPart c = false
  | leftBracket, rest => rest.head? ≠ some ']'
  | _, _ => True

theorem ofWord_of_notKeyword {name : String} (h : name ∉ keywords) :
    ofWord name = identifier name := by
  simp only [keywords, List.mem_cons, List.not_mem_nil, or_false, not_or] at h
  obtain ⟨h₁, h₂, h₃, h₄, h₅, h₆, h₇⟩ := h
  have hk : Primitive.ofKeyword? name = none := by
    simp [Primitive.ofKeyword?, Primitive.writable, Primitive.keyword, Ne.symm h₃, Ne.symm h₄,
      Ne.symm h₅, Ne.symm h₆, Ne.symm h₇]
  rw [ofWord, if_neg h₁, if_neg h₂, hk]

theorem ofWord_spelling {t : Token} (hw : t.IsWord) (hl : t.Legible) : ofWord t.spelling = t := by
  cases t with
  | typeKeyword => decide
  | interfaceKeyword => decide
  | identifier name => exact ofWord_of_notKeyword hl.notKeyword
  | primitive kind =>
    cases kind with
    | unrecognized => exact absurd rfl hl
    | _ => decide
  | _ => exact hw.elim

/-- A word that can be written has the shape of one. -/
theorem shape_of_isWord {t : Token} (hw : t.IsWord) (hl : t.Legible) :
    ∃ c cs, t.spelling.toList = c :: cs ∧ isWordStart c = true ∧
      ∀ d ∈ cs, isWordPart d = true := by
  have hkeyword : ∀ {c : Char} {cs : List Char}, t.spelling.toList = c :: cs →
      isWordStart c = true → cs.all isWordPart = true → ∃ c cs, t.spelling.toList = c :: cs ∧
        isWordStart c = true ∧ ∀ d ∈ cs, isWordPart d = true := by
    intro c cs hs hc hcs
    exact ⟨c, cs, hs, hc, List.all_eq_true.1 hcs⟩
  cases t with
  | identifier name => exact hl.shape
  | typeKeyword | interfaceKeyword => exact hkeyword rfl (by decide) (by decide)
  | primitive kind =>
    cases kind with
    | unrecognized => exact absurd rfl hl
    | _ => exact hkeyword rfl (by decide) (by decide)
  | _ => exact hw.elim

theorem takeWhile_word {cs rest : List Char} (hcs : ∀ d ∈ cs, isWordPart d = true)
    (hr : ∀ c ∈ rest.head?, isWordPart c = false) :
    (cs ++ rest).takeWhile isWordPart = cs ∧ (cs ++ rest).dropWhile isWordPart = rest := by
  rw [List.takeWhile_append_of_pos hcs, List.dropWhile_append_of_pos hcs]
  cases rest with
  | nil => simp
  | cons c rest =>
    have hc : isWordPart c = false := hr c rfl
    simp [hc]

theorem cut?_word {t : Token} {rest : List Char} (hw : t.IsWord) (hl : t.Legible)
    (hr : ∀ c ∈ rest.head?, isWordPart c = false) :
    cut? (t.spelling.toList ++ rest) = some (t, rest) := by
  obtain ⟨c, cs, hs, hc, hcs⟩ := shape_of_isWord hw hl
  obtain ⟨htake, hdrop⟩ := takeWhile_word hcs hr
  rw [hs, List.cons_append]
  -- No word starts with a bracket, so the first of the three alternatives is not taken.
  unfold cut?
  split
  · next heq =>
    rw [List.cons.injEq] at heq
    rw [heq.1] at hc
    exact absurd hc (by decide)
  · next heq =>
    cases heq
    rw [if_pos hc, htake, hdrop, ← hs, String.ofList_toList, ofWord_spelling hw hl]
  · next heq => cases heq

/-- **A token that can be written is cut off again if what follows does not belong to it.** -/
theorem cut?_spelling {t : Token} {rest : List Char} (hl : t.Legible) (hr : t.Ends rest) :
    cut? (t.spelling.toList ++ rest) = some (t, rest) := by
  cases t with
  | typeKeyword => exact cut?_word trivial hl hr
  | interfaceKeyword => exact cut?_word trivial hl hr
  | primitive kind => exact cut?_word trivial hl hr
  | identifier name => exact cut?_word trivial hl hr
  | leftBracket =>
    cases rest with
    | nil => rfl
    | cons c rest =>
      have hc : c ≠ ']' := fun h => hr (by rw [h]; rfl)
      show cut? ('[' :: c :: rest) = _
      unfold cut?
      split
      · next heq =>
        cases heq
        exact absurd rfl hc
      · next heq => cases heq; rfl
      · next heq => cases heq
  | _ => rfl

/-- What a token that can be written starts with: nothing that is layout, a word character only if
    it is a word, and a `]` only if it is that. -/
theorem spelling_start {t : Token} (hl : t.Legible) :
    ∃ c cs, t.spelling.toList = c :: cs ∧ isLayout c = false ∧
      (isWordPart c = true → t.IsWord) ∧ (c = ']' → t = .rightBracket) := by
  have hword : t.IsWord → ∃ c cs, t.spelling.toList = c :: cs ∧ isLayout c = false ∧
      (isWordPart c = true → t.IsWord) ∧ (c = ']' → t = .rightBracket) := by
    intro hw
    obtain ⟨c, cs, hs, hc, -⟩ := shape_of_isWord hw hl
    refine ⟨c, cs, hs, ?_, fun _ => hw, ?_⟩
    · rw [← Bool.not_eq_true]
      intro hlay
      simp only [isLayout, Bool.or_eq_true, decide_eq_true_eq] at hlay
      rcases hlay with ((rfl | rfl) | rfl) | rfl <;> exact absurd hc (by decide)
    · rintro rfl
      exact absurd hc (by decide)
  cases t with
  | typeKeyword | interfaceKeyword | primitive _ | identifier _ => exact hword trivial
  | _ => exact ⟨_, _, rfl, by decide, fun h => absurd h (by decide), by decide⟩

/-- Two tokens can stand side by side with nothing between them: they are not both words, and they
    are no brackets that would be read as `[]`. -/
def Meets (a b : Token) : Prop :=
  ¬ (a.IsWord ∧ b.IsWord) ∧ ¬ (a = .leftBracket ∧ b = .rightBracket)

theorem Meets.ends {a b : Token} {rest : List Char} (h : a.Meets b) (hb : b.Legible) :
    a.Ends (b.spelling.toList ++ rest) := by
  obtain ⟨hword, hbracket⟩ := h
  obtain ⟨c, cs, hs, -, hc, hc'⟩ := spelling_start hb
  rw [hs, List.cons_append]
  cases a with
  | typeKeyword | interfaceKeyword | primitive _ | identifier _ =>
    rintro d hd
    cases hd
    rw [← Bool.not_eq_true]
    exact fun hp => hword ⟨trivial, hc hp⟩
  | leftBracket =>
    intro hd
    cases hd
    exact hbracket ⟨rfl, hc' rfl⟩
  | _ => trivial

theorem ends_layout {t : Token} {c : Char} {rest : List Char} (hc : isLayout c = true) :
    t.Ends (c :: rest) := by
  have hlay : ((c = ' ' ∨ c = '\t') ∨ c = '\r') ∨ c = '\n' := by simpa [isLayout] using hc
  cases t with
  | typeKeyword | interfaceKeyword | primitive _ | identifier _ =>
    rintro d hd
    cases hd
    rcases hlay with ((rfl | rfl) | rfl) | rfl <;> decide
  | leftBracket =>
    rintro hd
    cases hd
    exact absurd hc (by decide)
  | _ => trivial

end Token

/-! ## Whole texts -/

/-- A stretch of layout. -/
def IsGap (gap : List Char) : Prop := ∀ c ∈ gap, isLayout c = true

instance : DecidablePred IsGap := fun _ => decidable_of_iff _ List.all_eq_true

theorem lexemes_gap {gap text : List Char} (h : IsGap gap) (k : Nat) :
    lexemes (gap ++ text) k = lexemes text (k + gap.length) := by
  induction gap generalizing k with
  | nil => rfl
  | cons c gap ih =>
    have hc : isLayout c = true := h c (by simp)
    have hgap : IsGap gap := fun d hd => h d (by simp [hd])
    rw [List.cons_append, lexemes, if_pos hc, ih hgap, List.length_cons]
    congr 1
    omega

theorem lexemes_token {t : Token} {rest : List Char} (hl : t.Legible) (hr : t.Ends rest)
    (k : Nat) : lexemes (t.spelling.toList ++ rest) k =
      (lexemes rest (k + t.spelling.length)).map (⟨k, t⟩ :: ·) := by
  obtain ⟨c, cs, hs, hc, -⟩ := Token.spelling_start hl
  have hcut := Token.cut?_spelling hl hr
  rw [hs, List.cons_append] at hcut ⊢
  rw [lexemes, if_neg (by simp [hc])]
  split
  · next h => rw [hcut] at h; cases h
  · next h => rw [hcut] at h; cases h; rfl

/-- A token with the layout behind it. -/
structure Spaced where
  token : Token
  gap : List Char

def spacedText (ls : List Spaced) : List Char :=
  ls.flatMap fun l => l.token.spelling.toList ++ l.gap

/-- What can be read back: the token can be written, and there is only layout behind it. -/
structure Spaced.Sound (l : Spaced) : Prop where
  legible : l.token.Legible
  isGap : IsGap l.gap

/-- There is layout between two tokens, or there need not be. -/
def Spaced.Parted (l m : Spaced) : Prop := l.gap ≠ [] ∨ l.token.Meets m.token

theorem Spaced.ends {l : Spaced} {ls : List Spaced} (hl : l.Sound) (hls : ∀ m ∈ ls, m.Sound)
    (hp : ∀ m ∈ ls.head?, l.Parted m) : l.token.Ends (l.gap ++ spacedText ls) := by
  obtain ⟨t, gap⟩ := l
  cases gap with
  | cons c gap => exact Token.ends_layout (hl.isGap c (by simp))
  | nil =>
    cases ls with
    | nil => cases t <;> simp [spacedText, Token.Ends]
    | cons m ls =>
      have hm : t.Meets m.token := (hp m rfl).resolve_left (by simp)
      have hends : t.Ends (m.token.spelling.toList ++ (m.gap ++ spacedText ls)) :=
        hm.ends (hls m (by simp)).legible
      simpa [spacedText] using hends

/-- **Tokens are read back from a text that keeps them apart.** -/
theorem lexemes_spaced {ls : List Spaced} (hs : ∀ l ∈ ls, l.Sound) (hp : ls.IsChain Spaced.Parted)
    (k : Nat) : ∃ lex, lexemes (spacedText ls) k = .ok lex ∧
      lex.map (·.token) = ls.map (·.token) := by
  induction ls generalizing k with
  | nil => exact ⟨[], by rw [spacedText, List.flatMap_nil, lexemes], rfl⟩
  | cons l ls ih =>
    obtain ⟨hl, hls⟩ := List.forall_mem_cons.1 hs
    obtain ⟨hhead, hchain⟩ := List.isChain_cons.1 hp
    have hends := Spaced.ends hl hls hhead
    obtain ⟨lex, hlex, hmap⟩ := ih hls hchain (k + l.token.spelling.length + l.gap.length)
    -- The first token is cut off, then its gap, and the rest starts that much further on.
    refine ⟨⟨k, l.token⟩ :: lex, ?_, by rw [List.map_cons, List.map_cons, hmap]⟩
    have htext : spacedText (l :: ls) =
        l.token.spelling.toList ++ (l.gap ++ spacedText ls) := by simp [spacedText]
    rw [htext, lexemes_token hl.legible hends, lexemes_gap hl.isGap, hlex]
    rfl

end TypedFlags.Schema
