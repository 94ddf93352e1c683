import TypedFlags.Proofs.Schema.WellFormed
import TypedFlags.Proofs.Text.Position
/-!
# Cutting by longest match

Which tokens a text is made of is said here without cutting it: at each place the **longest** token
is taken that can be written there (`Token.Longest`), and layout between tokens is passed over
(`Munches`). That is how a reader of schema text divides it, and `lexemes_eq_ok_iff` and
`lexemes_eq_error_iff` say that `lexemes` divides it in the same way and stops at the same character.

Longest match is a statement about all tokens, whereas cutting looks at a character or two. What
links them is that a token can only be made longer by what belongs to it (`Token.longest_iff_ends`):
a word by what a word goes on with, and `[` by `]`.

What a text that is cut to its end looks like (`Tiling`) is an invariant of the cutting: each move
keeps it for the part of the text that has been read (`Munches.tiled`).
-/

set_option autoImplicit false

namespace TypedFlags.Schema

namespace Token

/-! ## The longest token -/

/-- Of the tokens that can be written, `t` is the longest that the text starts with, and `rest` stands
    behind it. -/
structure Longest (t : Token) (text rest : List Char) : Prop where
  legible : t.Legible
  starts : t.spelling.toList ++ rest = text
  longest : ∀ (u : Token) (after : List Char), u.Legible → u.spelling.toList ++ after = text →
    u.spelling.length ≤ t.spelling.length

/-- No token that can be written starts with a character. -/
def NoneStarts (c : Char) : Prop := ∀ t : Token, t.Legible → t.spelling.toList.head? ≠ some c

variable {t : Token} {c : Char} {cs rest : List Char}

/-- Only words start like words. -/
theorem isWord_of_isWordStart (hs : t.spelling.toList = c :: cs) (hc : isWordStart c = true) :
    t.IsWord := by
  cases t with
  | typeKeyword | interfaceKeyword | primitive _ | identifier _ => trivial
  | _ =>
    cases hs
    exact absurd hc (by decide)

/-- A token of two characters or more is a word, or it is `[]`. -/
theorem isWord_or_arraySuffix {d : Char} {ds : List Char} (hl : t.Legible)
    (hs : t.spelling.toList = c :: d :: ds) :
    (isWordStart c = true ∧ ∀ e ∈ d :: ds, isWordPart e = true) ∨
      (c = '[' ∧ d = ']' ∧ ds = []) := by
  have hword (hw : t.IsWord) : isWordStart c = true ∧ ∀ e ∈ d :: ds, isWordPart e = true := by
    obtain ⟨c', cs', hs', hc, hcs⟩ := shape_of_isWord hw hl
    rw [hs] at hs'
    cases hs'
    exact ⟨hc, hcs⟩
  cases t with
  | typeKeyword | interfaceKeyword | primitive _ | identifier _ => exact .inl (hword trivial)
  | arraySuffix =>
    cases hs
    exact .inr ⟨rfl, rfl, rfl⟩
  | _ => cases hs

theorem ends_iff_of_isWord (hw : t.IsWord) :
    t.Ends rest ↔ ∀ c ∈ rest.head?, isWordPart c = false := by
  cases t with
  | typeKeyword | interfaceKeyword | primitive _ | identifier _ => rfl
  | _ => exact hw.elim

theorem eq_leftBracket (hl : t.Legible) (hs : t.spelling.toList = ['[']) : t = .leftBracket := by
  cases t with
  | leftBracket => rfl
  | typeKeyword | interfaceKeyword | primitive _ | identifier _ =>
    obtain ⟨c, cs, hs', hc, -⟩ := shape_of_isWord (by trivial) hl
    rw [hs] at hs'
    cases hs'
    exact absurd hc (by decide)
  | _ => cases hs

/-- If nothing that belongs to a token stands behind it, no token is longer. -/
theorem longest_of_ends (hl : t.Legible) (he : t.Ends rest) :
    t.Longest (t.spelling.toList ++ rest) rest where
  legible := hl
  starts := rfl
  longest := by
    intro u after hu heq
    by_contra hlt
    have hlt : t.spelling.toList.length < u.spelling.toList.length := by
      simpa only [String.length_toList, not_le] using hlt
    -- A longer token is this one with something more, which stands at the start of the rest.
    obtain ⟨more, hmore, rfl⟩ : ∃ more, u.spelling.toList = t.spelling.toList ++ more ∧
        rest = more ++ after := by
      obtain ⟨more, hshort, -⟩ | ⟨more, hmore, hrest⟩ := List.append_eq_append_iff.1 heq
      · rw [hshort, List.length_append] at hlt
        omega
      · exact ⟨more, hmore, hrest⟩
    obtain ⟨c, cs, hs, -⟩ := spelling_start hl
    cases more with
    | nil => simp [hmore] at hlt
    | cons m more =>
      rw [hs, List.cons_append] at hmore
      have htail : m ∈ cs ++ m :: more := by simp
      obtain ⟨d, ds, hds⟩ := List.exists_cons_of_ne_nil (List.ne_nil_of_mem htail)
      rw [hds] at hmore htail
      rcases isWord_or_arraySuffix hu hmore with ⟨hc, hparts⟩ | ⟨rfl, rfl, rfl⟩
      · have hbehind := (ends_iff_of_isWord (isWord_of_isWordStart hs hc)).1 he m rfl
        rw [hparts m htail] at hbehind
        cases hbehind
      · obtain rfl : m = ']' := List.mem_singleton.1 htail
        have hcs : cs = [] := by
          cases cs with
          | nil => rfl
          | cons e cs => simp at hds
        subst hcs
        obtain rfl := eq_leftBracket hl hs
        exact he rfl

/-- The longest token ends where what belongs to it ends: a word part behind a word would make a
    longer word, and a `]` behind `[` would make `[]`. -/
theorem Longest.ends {text : List Char} (h : t.Longest text rest) : t.Ends rest := by
  obtain ⟨hl, rfl, hlongest⟩ := h
  by_cases hw : t.IsWord
  · rw [ends_iff_of_isWord hw]
    intro c hc
    by_contra hpart
    rw [Bool.not_eq_false] at hpart
    obtain ⟨rest, rfl⟩ := List.head?_eq_some_iff.1 hc
    obtain ⟨d, ds, hs, hd, hds⟩ := shape_of_isWord hw hl
    have hlonger : (ofWord (String.ofList (t.spelling.toList ++ [c]))).Legible := by
      refine legible_ofWord ⟨d, ds ++ [c], by rw [String.toList_ofList, hs]; rfl, hd, ?_⟩
      simpa [or_imp, forall_and] using ⟨hds, hpart⟩
    have hle := hlongest _ rest hlonger (by simp [spelling_ofWord])
    exact absurd hle (by simp [spelling_ofWord])
  · cases t with
    | typeKeyword | interfaceKeyword | primitive _ | identifier _ => exact absurd trivial hw
    | leftBracket =>
      intro hc
      obtain ⟨rest, rfl⟩ := List.head?_eq_some_iff.1 hc
      have hle := hlongest .arraySuffix rest trivial rfl
      exact absurd hle (by decide)
    | _ => trivial

/-- **A token is the longest exactly if nothing that belongs to it stands behind it.** -/
theorem longest_iff_ends {text : List Char} :
    t.Longest text rest ↔ t.Legible ∧ t.Ends rest ∧ t.spelling.toList ++ rest = text := by
  constructor
  · intro h
    exact ⟨h.legible, h.ends, h.starts⟩
  · intro h
    obtain ⟨hl, he, rfl⟩ := h
    exact longest_of_ends hl he

/-! ## Cutting off the longest token -/

theorem isWord_ofWord (word : String) : (ofWord word).IsWord := by
  unfold ofWord
  split_ifs
  · trivial
  · trivial
  · split <;> trivial

theorem ends_of_ofPunctuation? (h : ofPunctuation? c = some t)
    (hr : c = '[' → rest.head? ≠ some ']') : t.Ends rest := by
  unfold ofPunctuation? at h
  split at h <;> cases h <;> first | exact hr rfl | trivial

theorem ends_of_cut? {text : List Char} (h : cut? text = some (t, rest)) : t.Ends rest := by
  unfold cut? at h
  split at h
  · cases h
    trivial
  · next c tail hno =>
    split at h
    · cases h
      rw [ends_iff_of_isWord (isWord_ofWord _)]
      intro d hd
      have hstop := List.head?_dropWhile_not isWordPart tail
      rw [hd] at hstop
      exact hstop
    · obtain ⟨u, hu, he⟩ := Option.map_eq_some_iff.1 h
      cases he
      refine ends_of_ofPunctuation? hu ?_
      intro hc hd
      obtain ⟨tail', rfl⟩ := List.head?_eq_some_iff.1 hd
      exact hno tail' hc rfl
  · cases h

/-- **What is cut off is the longest token.** -/
theorem cut?_eq_some_iff {text : List Char} : cut? text = some (t, rest) ↔ t.Longest text rest := by
  constructor
  · intro h
    exact longest_iff_ends.2 ⟨legible_of_cut? h, ends_of_cut? h, (cut?_eq_some h).symm⟩
  · intro h
    rw [← h.starts]
    exact cut?_spelling h.legible h.ends

/-- Nothing is cut off exactly if no token starts with the first character. -/
theorem cut?_eq_none_iff : cut? (c :: rest) = none ↔ NoneStarts c := by
  constructor
  · intro h t hl hc
    obtain ⟨cs, hs⟩ := List.head?_eq_some_iff.1 hc
    unfold cut? at h
    split at h
    · cases h
    · next c' rest' hno heq =>
      cases heq
      split at h
      · cases h
      · next hstart =>
        rw [Option.map_eq_none_iff] at h
        cases t with
        | typeKeyword | interfaceKeyword | primitive _ | identifier _ =>
          obtain ⟨d, ds, hs', hd, -⟩ := shape_of_isWord (by trivial) hl
          rw [hs] at hs'
          cases hs'
          exact hstart hd
        | _ =>
          cases hs
          cases h
    · next heq => cases heq
  · intro h
    cases hcut : cut? (c :: rest) with
    | none => rfl
    | some p =>
      obtain ⟨t, after⟩ := p
      have hlongest := cut?_eq_some_iff.1 hcut
      obtain ⟨d, ds, hs, -⟩ := spelling_start hlongest.legible
      have hd := hlongest.starts
      rw [hs, List.cons_append, List.cons.injEq] at hd
      exact absurd (by rw [hs, hd.1]; rfl) (h t hlongest.legible)

end Token

/-! ## Munching a text -/

/-- Reading a text from its start, by passing over layout and taking the longest token elsewhere, has
    got through `read` and taken the lexemes `ls`, and `rest` is still to come. -/
inductive Munches (text : List Char) : List Char → List Lexeme → List Char → Prop
  | start : Munches text [] [] text
  | skip {read : List Char} {ls : List Lexeme} {c : Char} {rest : List Char}
      (h : Munches text read ls (c :: rest)) (hc : isLayout c = true) :
      Munches text (read ++ [c]) ls rest
  | take {read : List Char} {ls : List Lexeme} {t : Token} {here rest : List Char}
      (h : Munches text read ls here) (ht : t.Longest here rest) :
      Munches text (read ++ t.spelling.toList) (ls ++ [⟨read.length, t⟩]) rest

/-- Munching a text gets to a character, `p` characters into the text, that is no layout and that no
    token starts with. -/
def StopsAt (text : List Char) (p : Nat) (c : Char) : Prop :=
  ∃ read ls rest, Munches text read ls (c :: rest) ∧ read.length = p ∧ isLayout c = false ∧
    Token.NoneStarts c

section
variable {text read rest : List Char} {ls : List Lexeme}

theorem Munches.read_append (h : Munches text read ls rest) : read ++ rest = text := by
  induction h with
  | start => rfl
  | skip _ _ ih => rw [← ih, List.append_assoc]; rfl
  | take _ ht ih => rw [← ih, ← ht.starts, List.append_assoc]

/-- Cutting goes on from wherever munching has got to. -/
theorem Munches.lexemes_eq (h : Munches text read ls rest) :
    lexemes text 0 = (lexemes rest read.length).map (ls ++ ·) := by
  induction h with
  | start => cases lexemes text 0 <;> simp [Except.map]
  | skip _ hc ih =>
    rw [ih, lexemes, if_pos hc, List.length_append]
    rfl
  | take _ ht ih =>
    rw [ih, ← ht.starts, lexemes_token ht.legible ht.ends, List.length_append,
      String.length_toList]
    cases lexemes _ _ <;> simp [Except.map]

/-- Whatever cutting has still to find is found by munching on. -/
theorem Munches.of_lexemes_eq_ok {ms : List Lexeme} (h : Munches text read ls rest)
    (hm : lexemes rest read.length = .ok ms) : Munches text text (ls ++ ms) [] := by
  generalize hk : read.length = k at hm
  fun_induction lexemes rest k generalizing read ls ms with
  | case1 k =>
    cases hm
    have hread := h.read_append
    rw [List.append_nil] at hread
    subst hread
    rw [List.append_nil]
    exact h
  | case2 k c rest hc ih =>
    exact ih (h.skip hc) (by simp [hk]) hm
  | case3 => cases hm
  | case4 k c rest hc token tail hcut ih =>
    obtain ⟨ns, hn, rfl⟩ := map_eq_ok_iff.1 hm
    have hnext := h.take (Token.cut?_eq_some_iff.1 hcut)
    rw [hk] at hnext
    have := ih hnext (by simp [hk, String.length_toList]) hn
    rwa [List.append_assoc] at this

theorem Munches.of_lexemes_eq_error {c : Char} {p : Nat} (h : Munches text read ls rest)
    (hm : lexemes rest read.length = .error (c, p)) : StopsAt text p c := by
  generalize hk : read.length = k at hm
  fun_induction lexemes rest k generalizing read ls with
  | case1 => cases hm
  | case2 k c' rest hc ih => exact ih (h.skip hc) (by simp [hk]) hm
  | case3 k c' rest hc hcut =>
    cases hm
    exact ⟨read, ls, rest, h, hk, by simpa using hc, Token.cut?_eq_none_iff.1 hcut⟩
  | case4 k c' rest hc token tail hcut ih =>
    exact ih (h.take (Token.cut?_eq_some_iff.1 hcut)) (by simp [hk, String.length_toList])
      (map_eq_error_iff.1 hm)

end

/-- **Cutting succeeds with the lexemes that munching takes of the whole text.** -/
theorem lexemes_eq_ok_iff {text : List Char} {ls : List Lexeme} :
    lexemes text 0 = .ok ls ↔ Munches text text ls [] := by
  constructor
  · intro h
    exact Munches.start.of_lexemes_eq_ok h
  · intro h
    rw [h.lexemes_eq, lexemes]
    simp [Except.map]

/-- **Cutting fails at the character at which munching stops.** -/
theorem lexemes_eq_error_iff {text : List Char} {p : Nat} {c : Char} :
    lexemes text 0 = .error (c, p) ↔ StopsAt text p c := by
  constructor
  · intro h
    exact Munches.start.of_lexemes_eq_error h
  · intro h
    obtain ⟨read, ls, rest, hm, rfl, hc, hnone⟩ := h
    rw [hm.lexemes_eq, lexemes, if_neg (by simp [hc])]
    split
    · rfl
    · next hcut =>
      rw [Token.cut?_eq_none_iff.2 hnone] at hcut
      cases hcut

/-! ## What a text looks like that is cut to its end -/

/-- The number of characters up to the end of a lexeme. -/
def Lexeme.behind (l : Lexeme) : Nat := l.offset + l.token.spelling.length

/-- A place in a text is within a lexeme. -/
def Lexeme.Covers (l : Lexeme) (i : Nat) : Prop := l.offset ≤ i ∧ i < l.behind

/-- The lexemes `ls` have been taken from the part `read` of a text. -/
structure Tiled (text read : List Char) (ls : List Lexeme) : Prop where
  within : ∀ l ∈ ls, l.behind ≤ read.length
  longest : ∀ l ∈ ls, l.token.Longest (text.drop l.offset) (text.drop l.behind)
  apart : ls.Pairwise fun l m => l.behind ≤ m.offset
  layout : ∀ i c, read[i]? = some c → (∀ l ∈ ls, ¬ l.Covers i) → isLayout c = true

section
variable {text read rest : List Char} {ls : List Lexeme}

theorem Tiled.start : Tiled text [] [] where
  within := by simp
  longest := by simp
  apart := .nil
  layout := by simp

theorem Tiled.skip {c : Char} (h : Tiled text read ls) (hc : isLayout c = true) :
    Tiled text (read ++ [c]) ls where
  within l hl := by
    have := h.within l hl
    rw [List.length_append]
    omega
  longest := h.longest
  apart := h.apart
  layout i d hd hfree := by
    by_cases hi : i < read.length
    · rw [List.getElem?_append_left hi] at hd
      exact h.layout i d hd hfree
    · rw [List.getElem?_append_right (Nat.le_of_not_lt hi)] at hd
      obtain rfl : d = c := by simpa using List.mem_of_getElem? hd
      exact hc

theorem Tiled.take {t : Token} {here : List Char} (h : Tiled text read ls)
    (hread : read ++ here = text) (ht : t.Longest here rest) :
    Tiled text (read ++ t.spelling.toList) (ls ++ [⟨read.length, t⟩]) where
  within := by
    rw [List.forall_mem_append, List.forall_mem_singleton, List.length_append]
    refine ⟨?_, Nat.le_of_eq (by rw [Lexeme.behind, String.length_toList])⟩
    intro l hl
    have := h.within l hl
    omega
  longest := by
    rw [List.forall_mem_append, List.forall_mem_singleton]
    refine ⟨h.longest, ?_⟩
    have hhere : text.drop read.length = here := by rw [← hread, List.drop_left]
    have hrest : text.drop (read.length + t.spelling.length) = rest := by
      rw [← List.drop_drop, hhere, ← ht.starts, ← String.length_toList, List.drop_left]
    rw [Lexeme.behind, hhere, hrest]
    exact ht
  apart := by
    refine List.pairwise_append.2 ⟨h.apart, List.pairwise_singleton _ _, ?_⟩
    intro l hl m hm
    obtain rfl := List.mem_singleton.1 hm
    exact h.within l hl
  layout i d hd hfree := by
    rw [List.forall_mem_append, List.forall_mem_singleton] at hfree
    obtain ⟨hbefore, hnew⟩ := hfree
    by_cases hi : i < read.length
    · rw [List.getElem?_append_left hi] at hd
      exact h.layout i d hd hbefore
    · have hlt := (List.getElem?_eq_some_iff.1 hd).1
      rw [List.length_append, String.length_toList] at hlt
      exact absurd ⟨Nat.le_of_not_lt hi, hlt⟩ hnew

/-- **Munching tiles what it has read.** -/
theorem Munches.tiled (h : Munches text read ls rest) : Tiled text read ls := by
  induction h with
  | start => exact .start
  | skip _ hc ih => exact ih.skip hc
  | take h ht ih => exact ih.take h.read_append ht

end

/-- The lexemes of a text that is cut to its end: they are all there is in it except layout. -/
structure Tiling (text : List Char) (ls : List Lexeme) : Prop where
  /-- Each token is spelled where its offset says. -/
  spelled : ∀ l ∈ ls, ∃ before after, text = before ++ l.token.spelling.toList ++ after ∧
    before.length = l.offset
  /-- The offsets increase. -/
  increasing : ls.Pairwise (·.offset < ·.offset)
  /-- No two tokens overlap. -/
  apart : ls.Pairwise fun l m => l.behind ≤ m.offset
  /-- What is in no token, before, between and after them, is layout. -/
  layout : ∀ i c, text[i]? = some c → (∀ l ∈ ls, ¬ l.Covers i) → isLayout c = true
  /-- Nothing that a word goes on with stands behind a word. -/
  wordEnds : ∀ l ∈ ls, l.token.IsWord → ∀ c, text[l.behind]? = some c → isWordPart c = false
  /-- A word is something else than an identifier exactly if it is one of the keywords. -/
  keyword : ∀ l ∈ ls, l.token.IsWord →
    ((∀ name, l.token ≠ .identifier name) ↔ l.token.spelling ∈ keywords)
  /-- No `]` stands directly behind a `[` that is a token of its own. -/
  bracketEnds : ∀ l ∈ ls, l.token = .leftBracket → text[l.behind]? ≠ some ']'
  /-- The place of a token is the line and the column of its offset. -/
  placed : ∀ i l, ls[i]? = some l →
    Text.Locates (text.take l.offset) (placeOf text ls (ls.length - i))

theorem Token.ne_identifier_iff {t : Token} (hw : t.IsWord) (hl : t.Legible) :
    (∀ name, t ≠ .identifier name) ↔ t.spelling ∈ keywords := by
  cases t with
  | identifier name => exact iff_of_false (fun h => h name rfl) hl.notKeyword
  | typeKeyword | interfaceKeyword => exact iff_of_true nofun (by decide)
  | primitive kind =>
    refine iff_of_true nofun ?_
    cases kind with
    | unrecognized => exact absurd rfl hl
    | _ => decide
  | _ => exact hw.elim

theorem Token.spelling_pos {t : Token} (hl : t.Legible) : 0 < t.spelling.length := by
  obtain ⟨c, cs, hs, -⟩ := spelling_start hl
  rw [← String.length_toList, hs]
  exact Nat.zero_lt_succ _

theorem placeOf_getElem? {text : List Char} {ls : List Lexeme} {i : Nat} {l : Lexeme}
    (h : ls[i]? = some l) : placeOf text ls (ls.length - i) = .after (text.take l.offset) := by
  obtain ⟨hi, -⟩ := List.getElem?_eq_some_iff.1 h
  have hback : ls.length - (ls.length - i) = i := by omega
  rw [placeOf, hback, h]
  rfl

theorem Tiled.tiling {text : List Char} {ls : List Lexeme} (h : Tiled text text ls) :
    Tiling text ls where
  spelled l hl := by
    have hoffset : l.offset ≤ text.length := by
      have := h.within l hl
      rw [Lexeme.behind] at this
      omega
    refine ⟨text.take l.offset, text.drop l.behind, ?_, List.length_take_of_le hoffset⟩
    rw [List.append_assoc, (h.longest l hl).starts, List.take_append_drop]
  increasing := by
    refine h.apart.imp_of_mem ?_
    intro l m hl _ hle
    have := Token.spelling_pos (h.longest l hl).legible
    rw [Lexeme.behind] at hle
    omega
  apart := h.apart
  layout := h.layout
  wordEnds l hl hw c hc := by
    rw [← List.head?_drop] at hc
    exact (Token.ends_iff_of_isWord hw).1 (h.longest l hl).ends c hc
  keyword l hl hw := Token.ne_identifier_iff hw (h.longest l hl).legible
  bracketEnds l hl hb := by
    have he := (h.longest l hl).ends
    rw [hb] at he
    rw [← List.head?_drop]
    exact he
  placed i l hi := by
    rw [placeOf_getElem? hi]
    exact Text.locates_after _

/-- A text is refused for a character exactly if cutting stops there. -/
theorem TypeSet.ofText_eq_unexpectedCharacter_iff {text : String} {c : Char}
    {position : Text.Position} :
    TypeSet.ofText text = .error ⟨.unexpectedCharacter c, position⟩ ↔
      ∃ p, StopsAt text.toList p c ∧ Text.Locates (text.toList.take p) position := by
  simp only [← lexemes_eq_error_iff, Text.locates_iff]
  unfold TypeSet.ofText
  dsimp only
  cases hl : lexemes text.toList 0 with
  | error e =>
    obtain ⟨d, p⟩ := e
    simp [Text.Position.atOffset, eq_comm]
  | ok ls =>
    refine iff_of_false ?_ (by simp)
    intro h
    dsimp only at h
    cases hd : tooDeep? 0 ls with
    | some offset => simp [hd] at h
    | none =>
      rw [hd] at h
      obtain ⟨⟨f, unread⟩, hf, he⟩ := mapError_eq_error_iff.1 h
      cases he
      exact Draft.run_fault_ofTokens hf

/-- **Cutting is by longest match.** Going through a text from its start, passing over layout and
    taking the longest token elsewhere, either gets to a character that no token starts with, or to
    the end. In the second case the text is cut into the tokens taken, which tile it. In the first it
    is refused for that character, at its line and column. -/
theorem TypeSet.ofText_cutting (text : String) :
    ((¬ ∃ p c, StopsAt text.toList p c) → ∃ ls, lexemes text.toList 0 = .ok ls ∧
      Munches text.toList text.toList ls [] ∧ Tiling text.toList ls ∧
      ∀ c position, TypeSet.ofText text ≠ .error ⟨.unexpectedCharacter c, position⟩) ∧
    (∀ p c, StopsAt text.toList p c → text.toList[p]? = some c ∧
      ∃ position, TypeSet.ofText text = .error ⟨.unexpectedCharacter c, position⟩ ∧
        (Fault.unexpectedCharacter c).detail = "unexpected character `" ++ c.toString ++ "`" ∧
        Text.Locates (text.toList.take p) position) := by
  constructor
  · intro hgo
    cases hl : lexemes text.toList 0 with
    | error e => exact absurd ⟨e.2, e.1, lexemes_eq_error_iff.1 hl⟩ hgo
    | ok ls =>
      have hm := lexemes_eq_ok_iff.1 hl
      refine ⟨ls, rfl, hm, hm.tiled.tiling, ?_⟩
      intro c position h
      obtain ⟨p, hp, -⟩ := TypeSet.ofText_eq_unexpectedCharacter_iff.1 h
      exact hgo ⟨p, c, hp⟩
  · intro p c hstop
    obtain ⟨read, ls, rest, hm, rfl, -⟩ := id hstop
    have hc : text.toList[read.length]? = some c := by
      rw [← hm.read_append, List.getElem?_append_right (Nat.le_refl _), Nat.sub_self]
      rfl
    have hplace := Text.locates_after (text.toList.take read.length)
    exact ⟨hc, _, TypeSet.ofText_eq_unexpectedCharacter_iff.2 ⟨_, hstop, hplace⟩, rfl, hplace⟩

/-- Words end where nothing more of a word follows, and a keyword is one only as a whole word. -/
example : (lexemes "typed$type[]".toList 0).map (·.map (·.token)) =
    .ok [.identifier "typed", .identifier "$type", .arraySuffix] := by
  decide +kernel

end TypedFlags.Schema
