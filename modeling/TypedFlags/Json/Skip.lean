import TypedFlags.Json.Token
/-!
# Passing over JSON text

A value that nobody asks for is passed over: its text has to be well formed, and that is all. A number
may be too large, an escape may be one half of a surrogate pair, and arrays and objects may be
nested to any depth, because nothing of the value is kept.

`skipValue` works on the brackets that are open around the place it has come to, so its recursion
is on the text alone.
-/

set_option autoImplicit false

namespace TypedFlags.Json

/-! ## Scalars -/

/-- Passes over an escaped character, behind the backslash. -/
def skipEscape : List Char → Except Stop (List Char)
  | [] => .error (.over .endInString [])
  | c :: rest =>
    if c = 'u' then (hexUnit rest).map (·.2)
    else if (plainEscape? c).isSome then .ok rest
    else .error (.over .invalidEscape (c :: rest))

theorem skipEscape_length {text rest : List Char} (h : skipEscape text = .ok rest) :
    rest.length ≤ text.length := by
  unfold skipEscape at h
  split at h
  · cases h
  · next c tail =>
    split at h
    · cases hu : hexUnit tail with
      | error => simp [hu, Except.map] at h
      | ok u =>
        simp only [hu, Except.map] at h
        cases h
        exact Nat.le_succ_of_le (hexUnit_length hu)
    · split at h <;> cases h
      simp

/-- Passes over the rest of a string, behind its opening quote. -/
def skipString (text : List Char) : Except Stop (List Char) :=
  match text with
  | [] => .error (.over .endInString [])
  | '"' :: rest => .ok rest
  | '\\' :: tail =>
    match _h : skipEscape tail with
    | .error stop => .error stop
    | .ok rest => skipString rest
  | c :: tail =>
    if c.toNat < 0x20 then .error (.over .controlCharacter (c :: tail)) else skipString tail
termination_by text.length
decreasing_by
  · have := skipEscape_length _h
    simp; omega
  · simp

theorem skipString_shorter {text rest : List Char} (h : skipString text = .ok rest) :
    rest.length < text.length := by
  fun_induction skipString text generalizing rest with
  | case1 | case3 | case5 => cases h
  | case2 => cases h; simp
  | case4 tail after he ih =>
    have := ih h
    have := skipEscape_length he
    simp; omega
  | case6 c tail _ _ _ ih =>
    have := ih h
    simp; omega

/-- Passes over a word, a number or a string. -/
def skipScalar : List Char → Except Stop (List Char)
  | [] => .error (.over .endInValue [])
  | c :: rest =>
    if c = 'n' then word ['u', 'l', 'l'] rest
    else if c = 't' then word ['r', 'u', 'e'] rest
    else if c = 'f' then word ['a', 'l', 's', 'e'] rest
    else if c = '-' then (numeral rest).map (·.2)
    else if c.isDigit then (numeral (c :: rest)).map (·.2)
    else if c = '"' then skipString rest
    else .error (.over .expectedValue (c :: rest))

theorem skipScalar_shorter {text rest : List Char} (h : skipScalar text = .ok rest) :
    rest.length < text.length := by
  have hn {t : List Char} (h : (numeral t).map (·.2) = .ok rest) : rest.length < t.length := by
    cases hm : numeral t with
    | error => simp [hm, Except.map] at h
    | ok p =>
      simp only [hm, Except.map] at h
      cases h
      exact numeral_shorter hm
  unfold skipScalar at h
  split at h
  · cases h
  · next c tail =>
    split at h
    · exact Nat.lt_succ_of_le (word_length h)
    · split at h
      · exact Nat.lt_succ_of_le (word_length h)
      · split at h
        · exact Nat.lt_succ_of_le (word_length h)
        · split at h
          · exact Nat.lt_succ_of_lt (hn h)
          · split at h
            · exact hn h
            · split at h
              · exact Nat.lt_succ_of_lt (skipString_shorter h)
              · cases h

/-! ## Arrays and objects -/

/-- What can be open around a value. -/
inductive Bracket where
  | array
  | object
  deriving DecidableEq, Repr

/-- The character that closes a bracket. -/
def Bracket.closing : Bracket → Char
  | array => ']'
  | object => '}'

/-- What is wrong with a text that neither goes on with a bracket nor closes it. -/
def Bracket.unclosed (bracket : Bracket) (text : List Char) : Stop :=
  .over
    (match bracket, text with
      | array, [] => .endInList
      | object, [] => .endInObject
      | array, _ => .expectedCommaOrBracket
      | object, _ => .expectedCommaOrBrace)
    text

/-- Passes over what stands in front of a value inside a bracket: nothing in an array; in an object
    a name and a colon. -/
def Bracket.skipName : Bracket → List Char → Except Stop (List Char)
  | array, text => .ok text
  | object, text =>
    match dropBlanks text with
    | [] => .error (.over .endInValue [])
    | '"' :: rest => do
      let rest ← skipString rest
      match dropBlanks rest with
      | [] => .error (.over .endInObject [])
      | ':' :: rest => .ok rest
      | rest => .error (.over .expectedColon rest)
    | rest => .error (.over .keyNotString rest)

theorem Bracket.skipName_length {bracket : Bracket} {text rest : List Char}
    (h : bracket.skipName text = .ok rest) : rest.length ≤ text.length := by
  have hl := dropBlanks_length text
  unfold skipName at h
  split at h
  · cases h; exact Nat.le_refl _
  · split at h
    · cases h
    · next tail hd =>
      rw [hd] at hl
      cases hs : skipString tail with
      | error => simp [hs, bind, Except.bind] at h
      | ok after =>
        simp only [hs, bind, Except.bind] at h
        have h₁ := skipString_shorter hs
        have h₂ := dropBlanks_length after
        split at h
        · cases h
        · next hc =>
          cases h
          rw [hc] at h₂
          simp at hl h₂; omega
        · cases h
    · cases h

/-- Passes over an opening bracket. -/
def opening? : List Char → Option (Bracket × List Char)
  | '[' :: rest => some (.array, rest)
  | '{' :: rest => some (.object, rest)
  | _ => none

theorem opening?_shorter {text rest : List Char} {bracket : Bracket}
    (h : opening? text = some (bracket, rest)) : rest.length < text.length := by
  unfold opening? at h
  split at h <;> cases h <;> simp

mutual

/-- Passes over a value, and over the rest of the arrays and objects that are open around it, the
    innermost first. -/
def skipValue (opened : List Bracket) (text : List Char) : Except Stop (List Char) :=
  match _h : opening? (dropBlanks text) with
  | none =>
    match _hs : skipScalar (dropBlanks text) with
    | .error stop => .error stop
    | .ok rest => skipRest opened rest
  | some (bracket, rest) =>
    if (dropBlanks rest).head? = some bracket.closing then skipRest (bracket :: opened) rest
    else
      match _hn : bracket.skipName rest with
      | .error stop => .error stop
      | .ok rest => skipValue (bracket :: opened) rest
termination_by text.length
decreasing_by
  · have := dropBlanks_length text
    have := skipScalar_shorter _hs
    omega
  · have := dropBlanks_length text
    have := opening?_shorter _h
    omega
  · have := dropBlanks_length text
    have := opening?_shorter _h
    have := Bracket.skipName_length _hn
    omega

/-- Passes over the rest of arrays and objects, behind a value inside the innermost. -/
def skipRest (opened : List Bracket) (text : List Char) : Except Stop (List Char) :=
  match opened with
  | [] => .ok text
  | bracket :: outer =>
    match _h : dropBlanks text with
    | [] => .error (bracket.unclosed [])
    | c :: rest =>
      if c = bracket.closing then skipRest outer rest
      else if c = ',' then
        match _hn : bracket.skipName rest with
        | .error stop => .error stop
        | .ok rest => skipValue (bracket :: outer) rest
      else .error (bracket.unclosed (c :: rest))
termination_by text.length
decreasing_by
  · have := dropBlanks_length text
    rw [_h] at this
    simp at this; omega
  · have := dropBlanks_length text
    have := Bracket.skipName_length _hn
    rw [_h] at *
    simp at *; omega

end

mutual

/-- A value takes at least one character. -/
theorem skipValue_shorter {opened : List Bracket} {text rest : List Char}
    (h : skipValue opened text = .ok rest) : rest.length < text.length := by
  have hl := dropBlanks_length text
  unfold skipValue at h
  split at h
  · split at h
    · cases h
    · next hs =>
      have := skipScalar_shorter hs
      have := skipRest_length h
      omega
  · next ho =>
    have := opening?_shorter ho
    split at h
    · have := skipRest_length h
      omega
    · split at h
      · cases h
      · next hn =>
        have := Bracket.skipName_length hn
        have := skipValue_shorter h
        omega
termination_by text.length

theorem skipRest_length {opened : List Bracket} {text rest : List Char}
    (h : skipRest opened text = .ok rest) : rest.length ≤ text.length := by
  have hl := dropBlanks_length text
  unfold skipRest at h
  split at h
  · cases h; exact Nat.le_refl _
  · split at h
    · cases h
    · next tail hd =>
      have ht : tail.length < text.length := by
        rw [hd] at hl
        exact hl
      split at h
      · have := skipRest_length h
        omega
      · split at h
        · split at h
          · cases h
          · next hn =>
            have := Bracket.skipName_length hn
            have := skipValue_shorter h
            omega
        · cases h
termination_by text.length

end

end TypedFlags.Json
