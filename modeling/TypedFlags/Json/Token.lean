import TypedFlags.Json.Numeral
/-!
# The smallest parts of JSON text

Blanks, words and strings. A `Reader` is a function that takes something off the front of a text,
together with the fact that it takes at least one character; so a loop that reads item after item
ends, whatever the items are.
-/

set_option autoImplicit false

namespace TypedFlags.Json

/-- Blanks: they may stand between the tokens of a document. -/
def isBlank (c : Char) : Bool := c = ' ' || c = '\t' || c = '\n' || c = '\r'

/-- A text from its first character on that is no blank. -/
def dropBlanks (text : List Char) : List Char := text.dropWhile isBlank

theorem dropBlanks_length (text : List Char) : (dropBlanks text).length ≤ text.length :=
  (List.dropWhile_suffix _).length_le

/-- Something that can be taken off the front of a text. -/
structure Reader (α : Type) where
  run : List Char → Except Stop (α × List Char)
  shorter : ∀ {text rest : List Char} {a : α}, run text = .ok (a, rest) → rest.length < text.length

/-! ## Words -/

/-- Takes the given characters off a text. -/
def word : (expected text : List Char) → Except Stop (List Char)
  | [], text => .ok text
  | _ :: _, [] => .error (.over .endInValue [])
  | e :: es, c :: text => if c = e then word es text else .error (.over .expectedWord (c :: text))

theorem word_length : ∀ {expected text rest : List Char}, word expected text = .ok rest →
    rest.length ≤ text.length
  | [], _, _, h => by cases h; exact Nat.le_refl _
  | _ :: _, [], _, h => by cases h
  | e :: es, c :: text, rest, h => by
    unfold word at h
    split at h
    · exact Nat.le_succ_of_le (word_length h)
    · cases h

/-! ## Strings -/

/-- The value of a hexadecimal digit of either case. -/
def hexValue? (c : Char) : Option Nat :=
  if '0' ≤ c ∧ c ≤ '9' then some (c.toNat - '0'.toNat)
  else if 'a' ≤ c ∧ c ≤ 'f' then some (c.toNat - 'a'.toNat + 10)
  else if 'A' ≤ c ∧ c ≤ 'F' then some (c.toNat - 'A'.toNat + 10)
  else none

/-- Reads four hexadecimal digits. Four **bytes** are taken in any case, if the text has them: the
    place of a wrong digit is behind all four. -/
def hexUnit (text : List Char) : Except Stop (Nat × List Char) :=
  if Text.byteCount text < 4 then .error ⟨.endInString, 0⟩
  else
    let wrong := .error ⟨.invalidEscape, Text.byteCount text - 4⟩
    match text with
    | a :: b :: c :: d :: rest =>
      match hexValue? a, hexValue? b, hexValue? c, hexValue? d with
      | some a, some b, some c, some d => .ok (((a * 16 + b) * 16 + c) * 16 + d, rest)
      | _, _, _, _ => wrong
    | _ => wrong

/-- Whether a 16-bit unit is the first of a surrogate pair. -/
def isLeading (unit : Nat) : Bool := 0xD800 ≤ unit && unit ≤ 0xDBFF

/-- Whether a 16-bit unit is the second of a surrogate pair. -/
def isTrailing (unit : Nat) : Bool := 0xDC00 ≤ unit && unit ≤ 0xDFFF

/-- Takes the given character off a text, inside a surrogate pair. -/
def pairCharacter (expected : Char) : List Char → Except Stop (List Char)
  | [] => .error (.over .endInString [])
  | c :: rest => if c = expected then .ok rest else .error (.over .unpairedSurrogate (c :: rest))

/-- Reads a character given by 16-bit units, behind the first `\u`: one unit, or two that make a
    surrogate pair. -/
def unicodeEscape (text : List Char) : Except Stop (Char × List Char) := do
  let (first, rest) ← hexUnit text
  if isTrailing first then .error (.here .loneSurrogate rest)
  else if isLeading first then
    let rest ← pairCharacter '\\' rest
    let rest ← pairCharacter 'u' rest
    let (second, rest) ← hexUnit rest
    if isTrailing second then
      .ok (Char.ofNat (0x10000 + (first - 0xD800) * 0x400 + (second - 0xDC00)), rest)
    else .error (.here .loneSurrogate rest)
  else .ok (Char.ofNat first, rest)

/-- The character meant by the letter behind a backslash, other than `u`. -/
def plainEscape? : Char → Option Char
  | '"' => some '"'
  | '\\' => some '\\'
  | '/' => some '/'
  | 'b' => some '\x08'
  | 'f' => some '\x0c'
  | 'n' => some '\n'
  | 'r' => some '\r'
  | 't' => some '\t'
  | _ => none

/-- Reads an escaped character, behind the backslash. -/
def escaped : List Char → Except Stop (Char × List Char)
  | [] => .error (.over .endInString [])
  | c :: rest =>
    if c = 'u' then unicodeEscape rest
    else match plainEscape? c with
      | some e => .ok (e, rest)
      | none => .error (.over .invalidEscape (c :: rest))

theorem hexUnit_length {text rest : List Char} {n : Nat} (h : hexUnit text = .ok (n, rest)) :
    rest.length ≤ text.length := by
  unfold hexUnit at h
  split at h
  · cases h
  · split at h
    · split at h <;> cases h
      simp; omega
    · cases h

theorem pairCharacter_length {expected : Char} {text rest : List Char}
    (h : pairCharacter expected text = .ok rest) : rest.length ≤ text.length := by
  unfold pairCharacter at h
  split at h
  · cases h
  · split at h <;> cases h
    simp

theorem unicodeEscape_length {text rest : List Char} {c : Char}
    (h : unicodeEscape text = .ok (c, rest)) : rest.length ≤ text.length := by
  simp only [unicodeEscape, bind, Except.bind] at h
  cases h₁ : hexUnit text with
  | error => simp [h₁] at h
  | ok u =>
    simp only [h₁] at h
    have l₁ := hexUnit_length h₁
    split at h
    · cases h
    · split at h
      · cases h₂ : pairCharacter '\\' u.2 with
        | error => simp [h₂] at h
        | ok r₂ =>
          cases h₃ : pairCharacter 'u' r₂ with
          | error => simp [h₂, h₃] at h
          | ok r₃ =>
            cases h₄ : hexUnit r₃ with
            | error => simp [h₂, h₃, h₄] at h
            | ok w =>
              simp only [h₂, h₃, h₄] at h
              have l₂ := pairCharacter_length h₂
              have l₃ := pairCharacter_length h₃
              have l₄ := hexUnit_length h₄
              split at h
              · simp only [Except.ok.injEq, Prod.mk.injEq] at h
                rw [← h.2]; omega
              · cases h
      · cases h; exact l₁

theorem escaped_length {text rest : List Char} {c : Char} (h : escaped text = .ok (c, rest)) :
    rest.length ≤ text.length := by
  unfold escaped at h
  split at h
  · cases h
  · split at h
    · exact Nat.le_succ_of_le (unicodeEscape_length h)
    · split at h <;> cases h
      simp

/-- Reads the rest of a string, behind its opening quote. -/
def stringBody (text : List Char) : Except Stop (List Char × List Char) :=
  match text with
  | [] => .error (.over .endInString [])
  | '"' :: rest => .ok ([], rest)
  | '\\' :: tail =>
    match _h : escaped tail with
    | .error stop => .error stop
    | .ok (c, rest) => (stringBody rest).map fun (cs, rest) => (c :: cs, rest)
  | c :: tail =>
    if c.toNat < 0x20 then .error (.over .controlCharacter (c :: tail))
    else (stringBody tail).map fun (cs, rest) => (c :: cs, rest)
termination_by text.length
decreasing_by
  · have := escaped_length _h
    simp; omega
  · simp

theorem stringBody_shorter {text rest cs : List Char} (h : stringBody text = .ok (cs, rest)) :
    rest.length < text.length := by
  fun_induction stringBody text generalizing cs rest with
  | case1 => cases h
  | case2 => cases h; simp
  | case3 => cases h
  | case4 tail c after he ih =>
    cases hb : stringBody after with
    | error => simp [hb, Except.map] at h
    | ok p =>
      simp only [hb, Except.map] at h
      cases h
      have := ih hb
      have := escaped_length he
      simp; omega
  | case5 => cases h
  | case6 c tail _ _ _ ih =>
    cases hb : stringBody tail with
    | error => simp [hb, Except.map] at h
    | ok p =>
      simp only [hb, Except.map] at h
      cases h
      have := ih hb
      simp; omega

end TypedFlags.Json
