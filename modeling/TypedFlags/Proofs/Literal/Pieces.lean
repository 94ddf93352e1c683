import TypedFlags.Proofs.Literal.Strict
/-!
# The liberties of a literal

The liberties that a literal may take, said without the replacements. A literal is a list of pieces,
and each piece has a **relaxed** and a **strict** form: the strict forms of all pieces are strict
JSON, and the relaxed ones are the literal. Between them lie the forms that a piece has while only
some kinds of liberties have been taken back (`Piece.requoted`, `Piece.keyed`).

What is proved here of the pieces is what the replacements depend on. Behind each piece the passage
over the strict text goes on (`passes_behind_piece`), and what stands at the front of a text in
another form stands at the front of the strict text too, up to the first character of a piece that
has more than one (`strict_of_front`).
-/

set_option autoImplicit false

namespace TypedFlags.Literal

open Json (isBlank Passes StringText)

/-! ## Pieces and their forms -/

/-- What stands for one character between single quotes. Neither kind of quote stands there by
    itself. -/
inductive Part where
  | plain (c : Char) (h : c ≠ '\'' ∧ c ≠ '"' ∧ c ≠ '\\')
  | apostrophe
  | escape (c : Char) (h : c ≠ '\'' ∧ c ≠ '"' ∧ c ≠ '\n')

/-- Between single quotes an apostrophe is escaped. -/
def Part.relaxed : Part → List Char
  | .plain c _ => [c]
  | .apostrophe => ['\\', '\'']
  | .escape c _ => ['\\', c]

/-- Between double quotes it is not. -/
def Part.strict : Part → List Char
  | .apostrophe => ['\'']
  | part => part.relaxed

/-- A key that is an identifier, from the brace or comma before it to the colon behind it. -/
structure BareKey where
  lead : Char
  before : List Char
  first : Char
  others : List Char
  after : List Char
  lead_eq : lead = '{' ∨ lead = ','
  blank_before : ∀ c ∈ before, isBlank c = true
  first_eq : first.isAlpha = true ∨ first = '_' ∨ first = '$'
  others_eq : ∀ c ∈ others, c.isAlphanum = true ∨ c = '_' ∨ c = '$'
  blank_after : ∀ c ∈ after, isBlank c = true

/-- The key itself. -/
def BareKey.name (key : BareKey) : List Char := key.first :: key.others

/-- A piece of a literal: a character outside strings, a string in double or in single quotes, a bare
    key with what stands around it, and a closing bracket with a comma before it. -/
inductive Piece where
  | sign (c : Char) (h : c ≠ '"' ∧ c ≠ '\'')
  | double (body : List Char) (h : StringText body)
  | single (parts : List Part)
  | bare (key : BareKey)
  | spare (gap : List Char) (close : Char) (hg : ∀ c ∈ gap, isBlank c = true)
      (hc : close = '}' ∨ close = ']')

namespace Piece

/-- A piece as it stands in a literal. -/
def relaxed : Piece → List Char
  | sign c _ => [c]
  | double body _ => '"' :: (body ++ ['"'])
  | single parts => '\'' :: (parts.flatMap Part.relaxed ++ ['\''])
  | bare key => key.lead :: (key.before ++ (key.name ++ (key.after ++ [':'])))
  | spare gap close .. => ',' :: (gap ++ [close])

/-- A piece as it stands in strict JSON. -/
def strict : Piece → List Char
  | single parts => '"' :: (parts.flatMap Part.strict ++ ['"'])
  | bare key => key.lead :: (key.before ++ ('"' :: (key.name ++ ['"']) ++ (key.after ++ [':'])))
  | spare gap close .. => gap ++ [close]
  | piece => piece.relaxed

/-- A piece whose single quotes have been replaced. -/
def requoted : Piece → List Char
  | single parts => (single parts).strict
  | piece => piece.relaxed

/-- A piece of which nothing is left to take back but a comma. -/
def keyed : Piece → List Char
  | spare gap close hg hc => (spare gap close hg hc).relaxed
  | piece => piece.strict

end Piece

/-! ## Plain characters -/

theorem plain_of_isBlank {c : Char} (h : isBlank c = true) : Plain c :=
  plain_of_class h (by decide)

theorem plain_close {gap : List Char} {close : Char} (hg : ∀ c ∈ gap, isBlank c = true)
    (hc : close = '}' ∨ close = ']') : ∀ c ∈ gap ++ [close], Plain c := by
  rw [List.forall_mem_append, List.forall_mem_singleton]
  refine ⟨fun c hm => plain_of_isBlank (hg c hm), ?_⟩
  rcases hc with rfl | rfl <;> decide

theorem isKeyPart_of_isAlphanum {c : Char} (h : c.isAlphanum = true) : isKeyPart c = true := by
  have hascii : c.toNat < 128 := by
    have := (toNat_of_isAlphanum h).2
    omega
  simp [isKeyPart, Text.isWord_of_isAlphanum h hascii]

namespace BareKey
variable (key : BareKey)

theorem isKeyStart_first : isKeyStart key.first = true := by
  simpa [isKeyStart, or_assoc] using key.first_eq

theorem isKeyPart_others : ∀ c ∈ key.others, isKeyPart c = true := by
  intro c hc
  rcases key.others_eq c hc with halnum | rfl | rfl
  · exact isKeyPart_of_isAlphanum halnum
  · decide
  · decide

theorem plain_before : ∀ c ∈ key.before, Plain c :=
  fun c hc => plain_of_isBlank (key.blank_before c hc)

theorem plain_name : ∀ c ∈ key.name, Plain c := by
  rw [name, List.forall_mem_cons]
  exact ⟨plain_of_class key.isKeyStart_first (by decide),
    fun c hc => plain_of_class (key.isKeyPart_others c hc) (by decide)⟩

theorem plain_after : ∀ c ∈ key.after ++ [':'], Plain c := by
  rw [List.forall_mem_append, List.forall_mem_singleton]
  exact ⟨fun c hc => plain_of_isBlank (key.blank_after c hc), by decide⟩

theorem plain_relaxed : ∀ c ∈ key.before ++ (key.name ++ (key.after ++ [':'])), Plain c := by
  simp only [List.forall_mem_append]
  exact ⟨key.plain_before, key.plain_name, List.forall_mem_append.1 key.plain_after⟩

end BareKey

/-! ## Strings -/

theorem stringText_of_plain {s : List Char} (h : ∀ c ∈ s, Plain c) : StringText s := by
  induction s with
  | nil => exact .nil
  | cons c s ih =>
    rw [List.forall_mem_cons] at h
    exact .plain (h.1.ne (by decide)) (h.1.ne (by decide)) (ih h.2)

theorem stringText_strict (parts : List Part) : StringText (parts.flatMap Part.strict) := by
  induction parts with
  | nil => exact .nil
  | cons part parts ih =>
    cases part with
    | plain c h => exact .plain h.2.1 h.2.2 ih
    | apostrophe => exact .plain (by decide) (by decide) ih
    | escape c h => exact .escape h.2.2 ih

/-! ## Passing over the strict text -/

section
variable {b b' : Json.Before} {text : List Char}

theorem passes_behind_string {body : List Char} (hb : StringText body)
    (h : Passes b ('"' :: (body ++ ['"']) ++ text) b' []) : Passes .string text b' [] := by
  rw [List.cons_append, List.append_assoc, List.singleton_append] at h
  generalize hs : body ++ '"' :: text = tail at h
  cases h with
  | blank hc => exact absurd hc (by decide)
  | string hb' hp =>
    -- Both bodies are what the string at the front holds.
    have hbody := quotedBody_of_stringText hb text
    rw [hs, quotedBody_of_stringText hb'] at hbody
    cases hbody
    exact hp
  | close hc => exact absurd hc (by decide)
  | sign hc => exact absurd hc (by decide)

theorem passes_behind_sign {c : Char} (hc : c ≠ '"') (h : Passes b (c :: text) b' []) :
    ∃ b, Passes b text b' [] := by
  cases h with
  | string => exact absurd rfl hc
  | blank _ hp | colon hp | comma hp | close _ _ hp | sign _ hp => exact ⟨_, hp⟩

theorem passes_behind_plain {s : List Char} (hs : ∀ c ∈ s, Plain c)
    (h : Passes b (s ++ text) b' []) : ∃ b, Passes b text b' [] := by
  induction s generalizing b with
  | nil => exact ⟨b, h⟩
  | cons c s ih =>
    rw [List.forall_mem_cons] at hs
    obtain ⟨b, hp⟩ := passes_behind_sign (hs.1.ne (by decide)) h
    exact ih hs.2 hp

theorem BareKey.lead_ne_quote (key : BareKey) : key.lead ≠ '"' := by
  rcases key.lead_eq with h | h <;> rw [h] <;> decide

/-- **Behind a piece of the strict text the passage goes on.** -/
theorem passes_behind_piece (piece : Piece) (h : Passes b (piece.strict ++ text) b' []) :
    ∃ b, Passes b text b' [] := by
  cases piece with
  | sign c hc => exact passes_behind_sign hc.1 h
  | double body hb => exact ⟨_, passes_behind_string hb h⟩
  | single parts => exact ⟨_, passes_behind_string (stringText_strict parts) h⟩
  | bare key =>
    rw [Piece.strict, List.cons_append, List.append_assoc, List.append_assoc] at h
    obtain ⟨_, hbefore⟩ := passes_behind_sign key.lead_ne_quote h
    obtain ⟨_, hname⟩ := passes_behind_plain key.plain_before hbefore
    exact passes_behind_plain key.plain_after
      (passes_behind_string (stringText_of_plain key.plain_name) hname)
  | spare gap close hg hc => exact passes_behind_plain (plain_close hg hc) h

end

/-! ## The front of a text -/

theorem BareKey.lead_mem_marks (key : BareKey) : key.lead ∈ marks := by
  rcases key.lead_eq with h | h <;> rw [h] <;> decide

/-- A piece is a sign or starts with a mark, even when no single quotes are left. -/
theorem Piece.sign_or_mark (piece : Piece) : (∃ c h, piece = .sign c h) ∨
    ∃ c ∈ marks, (∃ s, piece.requoted = c :: s) ∧ ∃ s, piece.keyed = c :: s := by
  cases piece with
  | sign c h => exact .inl ⟨c, h, rfl⟩
  | double body => exact .inr ⟨'"', by decide, ⟨_, rfl⟩, _, rfl⟩
  | single parts => exact .inr ⟨'"', by decide, ⟨_, rfl⟩, _, rfl⟩
  | bare key => exact .inr ⟨key.lead, key.lead_mem_marks, ⟨_, rfl⟩, _, rfl⟩
  | spare gap close => exact .inr ⟨',', by decide, ⟨_, rfl⟩, _, rfl⟩

/-- **What stands at the front of a text without a mark stands at the front of the strict text**: it
    is made of signs, and those are the same in every form. -/
theorem strict_of_front {form : Piece → List Char}
    (hform : form = Piece.requoted ∨ form = Piece.keyed) {pieces : List Piece}
    {front tail : List Char} (hfront : ∀ c ∈ front, Plain c)
    (h : pieces.flatMap form = front ++ tail) :
    ∃ tail', pieces.flatMap Piece.strict = front ++ tail' := by
  induction front generalizing pieces with
  | nil => exact ⟨_, rfl⟩
  | cons d front ih =>
    obtain ⟨hd, hfront⟩ := List.forall_mem_cons.1 hfront
    cases pieces with
    | nil => cases h
    | cons piece pieces =>
      rw [List.flatMap_cons] at h
      rcases piece.sign_or_mark with ⟨c, hc, rfl⟩ | ⟨c, hmark, hrequoted, hkeyed⟩
      · have hsign : form (.sign c hc) = [c] := by rcases hform with rfl | rfl <;> rfl
        rw [hsign, List.singleton_append, List.cons_append, List.cons.injEq] at h
        obtain ⟨tail', htail⟩ := ih hfront h.2
        exact ⟨tail', by simp [Piece.strict, Piece.relaxed, h.1, htail]⟩
      · obtain ⟨s, hs⟩ : ∃ s, form piece = c :: s := by
          rcases hform with rfl | rfl
          · exact hrequoted
          · exact hkeyed
        rw [hs, List.cons_append, List.cons_append, List.cons.injEq] at h
        exact absurd hmark (h.1 ▸ hd)

end TypedFlags.Literal
