import TypedFlags.Json.Basic
import TypedFlags.Json.Fault
/-!
# Numbers in JSON text

A number is read in two steps: its text is cut into digits (`numeral`), and the digits are given a
value (`Numeral.value`).

A numeral without fraction and exponent is an integer if it fits 64 bits; `-0`, and whatever does
not fit, is a floating-point number like all other numerals. For those, **the significand is kept to
64 bits**: digits are taken as long as the number they make is below `2 ^ 64`, and every digit of
the integer part that is left out counts in the power of ten.

A number can be too large, and an exponent that alone does not fit 31 bits says so at once, before
the rest of its digits has been read. A number that is too small is zero.
-/

set_option autoImplicit false

namespace TypedFlags.Json

/-- The digits of a number. There are no fraction digits exactly if there is no point. -/
structure Numeral where
  whole : List Char
  fraction : List Char
  exponent : Option (Bool × List Char)

/-- A run of digits from the front of a text. -/
def digits (text : List Char) : List Char × List Char :=
  (text.takeWhile Char.isDigit, text.dropWhile Char.isDigit)

/-- The fault of a missing digit: the text has ended, or something else stands there. -/
def missingDigit (text : List Char) : Stop :=
  .over (if text.isEmpty then .endInValue else .invalidNumber) text

/-- The integer part: a zero that no digit follows, or digits that start with none. -/
def wholePart : List Char → Except Stop (List Char × List Char)
  | '0' :: rest =>
    match digits rest with
    | ([], _) => .ok (['0'], rest)
    | _ => .error (.over .invalidNumber rest)
  | text =>
    match digits text with
    | ([], _) => .error (missingDigit text)
    | (ds, rest) => .ok (ds, rest)

/-- A point and at least one digit, or nothing. -/
def fractionPart : List Char → Except Stop (List Char × List Char)
  | '.' :: rest =>
    match digits rest with
    | ([], _) => .error (missingDigit rest)
    | (ds, rest) => .ok (ds, rest)
  | text => .ok ([], text)

/-- The sign of an exponent: whether it is a minus. -/
def exponentSign : List Char → Bool × List Char
  | '+' :: rest => (false, rest)
  | '-' :: rest => (true, rest)
  | text => (false, text)

/-- An exponent mark, perhaps a sign, and at least one digit, or nothing. -/
def exponentPart (text : List Char) : Except Stop (Option (Bool × List Char) × List Char) :=
  match text with
  | [] => .ok (none, text)
  | c :: rest =>
    if c = 'e' ∨ c = 'E' then
      let (negative, rest) := exponentSign rest
      match digits rest with
      | ([], _) => .error (missingDigit rest)
      | (ds, rest) => .ok (some (negative, ds), rest)
    else .ok (none, text)

/-- Cuts a number, without its sign, off the front of a text. -/
def numeral (text : List Char) : Except Stop (Numeral × List Char) := do
  let (whole, text) ← wholePart text
  let (fraction, text) ← fractionPart text
  let (exponent, text) ← exponentPart text
  return (⟨whole, fraction, exponent⟩, text)

/-- The value of a digit. -/
def digitValue (c : Char) : Nat := c.toNat - '0'.toNat

/-- Appends digits to a number as long as it stays below `limit`: the number and the digits that are
    left out. -/
def keepBelow (limit n : Nat) : List Char → Nat × List Char
  | [] => (n, [])
  | d :: ds =>
    let next := 10 * n + digitValue d
    if next < limit then keepBelow limit next ds else (n, d :: ds)

/-- The floating-point value of a numeral, in a text that goes on with `rest`. -/
def Numeral.float (n : Numeral) (negative : Bool) (rest : List Char) : Except Stop Binary64 :=
  let (significand, left) := keepBelow 0x10000000000000000 0 n.whole
  let (significand, cut) := keepBelow 0x10000000000000000 significand n.fraction
  let power : Int := (left.length : Int) - (n.fraction.length - cut.length)
  let scaled (power : Int) :=
    match Binary64.ofDecimal negative significand power with
    | some x => .ok x
    | none => .error (.here .numberOutOfRange rest)
  match n.exponent with
  | none => scaled power
  | some (minus, ds) =>
    match keepBelow 0x80000000 0 ds with
    | (e, []) => scaled (if minus then power - e else power + e)
    | (_, _ :: unread) =>
      if significand = 0 ∨ minus then .ok (.zero negative)
      else .error ⟨.numberOutOfRange, unread.length + Text.byteCount rest⟩

/-- The value of a numeral, in a text that goes on with `rest`. -/
def Numeral.value (n : Numeral) (negative : Bool) (rest : List Char) : Except Stop Number :=
  let whole := n.whole.foldl (fun n d => 10 * n + digitValue d) 0
  let signed : Int := if negative then -whole else whole
  if h : n.fraction = [] ∧ n.exponent = none ∧ Fits signed ∧ ¬(negative ∧ whole = 0) then
    .ok (.integer signed h.2.2.1)
  else (n.float negative rest).map .float

/-- Reads a number, its sign being already read. -/
def readNumber (negative : Bool) (text : List Char) : Except Stop (Number × List Char) := do
  let (n, rest) ← numeral text
  let value ← n.value negative rest
  return (value, rest)

/-! ## A number is not empty -/

theorem digits_length {text ds rest : List Char} (h : digits text = (ds, rest)) :
    ds.length + rest.length = text.length := by
  simp only [digits, Prod.mk.injEq] at h
  rw [← h.1, ← h.2, ← List.length_append, List.takeWhile_append_dropWhile]

theorem wholePart_shorter {text ds rest : List Char} (h : wholePart text = .ok (ds, rest)) :
    rest.length < text.length := by
  unfold wholePart at h
  split at h
  · split at h <;> cases h
    simp
  · split at h <;> cases h
    next hne hd =>
      have := digits_length hd
      have : ds.length ≠ 0 := by simpa using hne
      omega

theorem fractionPart_length {text ds rest : List Char} (h : fractionPart text = .ok (ds, rest)) :
    rest.length ≤ text.length := by
  unfold fractionPart at h
  split at h
  · split at h <;> cases h
    next hd =>
      have := digits_length hd
      simp; omega
  · cases h; simp

theorem exponentSign_length (text : List Char) :
    (exponentSign text).2.length ≤ text.length := by
  unfold exponentSign
  split <;> simp

theorem exponentPart_length {text rest : List Char} {e : Option (Bool × List Char)}
    (h : exponentPart text = .ok (e, rest)) : rest.length ≤ text.length := by
  unfold exponentPart at h
  split at h
  · cases h; simp
  · next tail =>
    split at h
    · split at h
      next negative signed hs =>
      split at h <;> cases h
      next hd =>
        have := digits_length hd
        have := exponentSign_length tail
        rw [hs] at this
        simp at this ⊢; omega
    · cases h; simp

/-- The digits of a number take at least one character. -/
theorem numeral_shorter {text rest : List Char} {n : Numeral} (h : numeral text = .ok (n, rest)) :
    rest.length < text.length := by
  simp only [numeral, bind, Except.bind, pure, Except.pure] at h
  cases hw : wholePart text with
  | error => simp [hw] at h
  | ok w =>
    cases hf : fractionPart w.2 with
    | error => simp [hw, hf] at h
    | ok f =>
      cases he : exponentPart f.2 with
      | error => simp [hw, hf, he] at h
      | ok e =>
        simp only [hw, hf, he] at h
        cases h
        have := wholePart_shorter hw
        have := fractionPart_length hf
        have := exponentPart_length he
        omega

/-- A number takes at least one character. -/
theorem readNumber_shorter {negative : Bool} {text rest : List Char} {n : Number}
    (h : readNumber negative text = .ok (n, rest)) : rest.length < text.length := by
  simp only [readNumber, bind, Except.bind, pure, Except.pure] at h
  cases hn : numeral text with
  | error => simp [hn] at h
  | ok p =>
    simp only [hn] at h
    split at h <;> cases h
    exact numeral_shorter hn

end TypedFlags.Json
