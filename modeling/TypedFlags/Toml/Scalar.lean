import TypedFlags.Toml.Token
/-!
# Words, numbers and dates in TOML

What a bare word stands for as a value: a truth value, a number, or a date. The values are those of
JSON. Dates and times, and the floating-point numbers that are not finite, have no counterpart there
and become `null`, which nothing in a configuration accepts.

Underscores may stand between two digits; an integer starts with a zero only if that is all, unless
it is in base 16, 8 or 2. **Dates are told from numbers by their shape** and are not looked at more
closely.
-/

set_option autoImplicit false

namespace TypedFlags.Toml

/-! ## Numbers and dates -/

/-- Whether one character stands directly before another somewhere in a text. -/
def hasPair (a b : Char) (text : List Char) : Bool :=
  (text.zip (text.drop 1)).any fun (c, d) => c = a && d = b

/-- The digits of a run of digits at the front of a text, and the text behind the run. Single
    underscores may stand between digits. -/
def digitRun? (isDigit : Char → Bool) (leadingZeros : Bool) (text : List Char) :
    Option (List Char × List Char) :=
  let inRun c := isDigit c || c = '_'
  let run := text.takeWhile inRun
  let digits := run.filter (· ≠ '_')
  if run.isEmpty || run.head? = some '_' || run.getLast? = some '_' || hasPair '_' '_' run then none
  else if !leadingZeros && digits.length ≠ 1 && digits.head? = some '0' then none
  else some (digits, text.dropWhile inRun)

/-- The sign of a number: whether it is a minus. -/
def sign : List Char → Bool × List Char
  | '-' :: text => (true, text)
  | text => (false, text)

/-- The number that digits write in a base. -/
def digitsValue (base : Nat) (ds : List Char) : Nat :=
  ds.foldl (fun n d => base * n + (Json.hexValue? d).getD 0) 0

/-- An integer of 64 bits with a sign. -/
def integer? (negative : Bool) (magnitude : Nat) : Option Json :=
  let n : Int := if negative then -magnitude else magnitude
  if h : Json.Fits n ∧ n < 0x8000000000000000 then some (.number (.integer n h.1)) else none

/-- An integer in a base, without a sign. -/
def basedInteger? (base : Nat) (text : List Char) : Option Json := do
  let isDigit c := (Json.hexValue? c).any (· < base)
  let (ds, rest) ← digitRun? isDigit true text
  if rest.isEmpty then integer? false (digitsValue base ds) else none

/-- An integer in base ten. -/
def decimalInteger? (text : List Char) : Option Json := do
  let (negative, text) := sign text
  let (ds, rest) ← digitRun? Char.isDigit false text
  if rest.isEmpty then integer? negative (digitsValue 10 ds) else none

/-- The floating-point number of the given digits; there is none beyond the range of the format. -/
def floatOf? (negative : Bool) (whole fraction : List Char) (exponent : Int) : Option Json :=
  let ds := whole ++ fraction
  (Binary64.nearest? negative (digitsValue 10 ds) ds.length (exponent - fraction.length)).map
    fun x => .number (.float x)

/-- The digits of an exponent, which has to be the whole text. -/
def exponentDigits? (text : List Char) : Option Nat := do
  let (ds, rest) ← digitRun? Char.isDigit true text
  if rest.isEmpty then some (digitsValue 10 ds) else none

/-- A floating-point number: the word up to its point, and the word behind that if there is one. An
    exponent of which the mark ends the word goes on in the next tokens. -/
def float? (text : List Char) (behindPoint : Option (List Char)) (rest : List Token) :
    Option (Json × List Token) := do
  let (negative, text) := sign text
  let (whole, suffix) ← digitRun? Char.isDigit false text
  let (fraction, suffix) ← match behindPoint with
    | none => some ([], suffix)
    | some text => if suffix.isEmpty then digitRun? Char.isDigit true text else none
  match suffix with
  | [] => (floatOf? negative whole fraction 0).map (·, rest)
  | mark :: suffix =>
    if mark ≠ 'e' ∧ mark ≠ 'E' then none
    else match suffix with
      | [] =>
        let rest := match rest with
          | .plus :: rest => rest
          | rest => rest
        match rest with
        | .bare text :: rest => do
          let e ← exponentDigits? text
          (floatOf? negative whole fraction e).map (·, rest)
        | _ => none
      | _ => do
        let (minus, suffix) := sign suffix
        let e ← exponentDigits? suffix
        (floatOf? negative whole fraction (if minus then -e else e)).map (·, rest)

/-- A number that starts with the given word. -/
def number? (text : List Char) (rest : List Token) : Option (Json × List Token) :=
  match text with
  | '0' :: 'x' :: digits => (basedInteger? 16 digits).map (·, rest)
  | '0' :: 'o' :: digits => (basedInteger? 8 digits).map (·, rest)
  | '0' :: 'b' :: digits => (basedInteger? 2 digits).map (·, rest)
  | _ =>
    if 'e' ∈ text ∨ 'E' ∈ text then float? text none rest
    else match rest with
      | .period :: .bare behind :: rest => float? text (some behind) rest
      | .period :: _ => none
      | _ =>
        let (_, unsigned) := sign text
        if unsigned = ['i', 'n', 'f'] ∨ unsigned = ['n', 'a', 'n'] then some (.null, rest)
        else (decimalInteger? text).map (·, rest)

/-- Takes a bare word off the front of tokens. -/
def dropBare? : List Token → Option (List Token)
  | .bare _ :: rest => some rest
  | _ => none

/-- Takes a bare word off, if a given token stands before it; nothing if it does not. -/
def dropPart? (before : Token) (ts : List Token) : Option (List Token) :=
  match ts with
  | t :: rest => if t = before then dropBare? rest else some ts
  | [] => some []

/-- The rest of a time, behind its first colon: minutes, seconds, perhaps a fraction and a zone. -/
def timeTail? (ts : List Token) : Option (List Token) := do
  match ← dropBare? ts with
  | .colon :: ts => do
    let ts ← dropBare? ts
    let ts ← dropPart? .period ts
    let ts ← dropPart? .plus ts
    dropPart? .colon ts
  | _ => none

/-- The rest of a date, behind its first word and perhaps the colon after that. One blank may stand
    before the hour. -/
def dateTail? (colonRead : Bool) (ts : List Token) : Option (List Token) :=
  let ts := match ts with
    | .blank [' '] :: .bare _ :: rest => rest
    | ts => ts
  if colonRead then timeTail? ts
  else match ts with
    | .colon :: ts => timeTail? ts
    | ts => some ts

/-- Whether a word has the shape of a date: a `T`, or a minus that is no sign. -/
def isDateLike (text : List Char) : Bool :=
  text.contains 'T' || text.contains 't' ||
    ((text.drop 1).contains '-' && !hasPair 'e' '-' text && !hasPair 'E' '-' text)

/-- A number or date that starts with the given word. -/
def numberOrDate? (text : List Char) (rest : List Token) : Option (Json × List Token) :=
  if isDateLike text then (dateTail? false rest).map (.null, ·)
  else match rest with
    | .colon :: rest => (dateTail? true rest).map (.null, ·)
    | _ => number? text rest

/-- The value that a bare word starts. -/
def bareValue? (text : List Char) (rest : List Token) : Option (Json × List Token) :=
  if text = ['t', 'r', 'u', 'e'] then some (.bool true, rest)
  else if text = ['f', 'a', 'l', 's', 'e'] then some (.bool false, rest)
  else if text = ['i', 'n', 'f'] ∨ text = ['n', 'a', 'n'] then numberOrDate? text rest
  else match text with
    | c :: _ => if c = '-' || c.isDigit then numberOrDate? text rest else none
    | [] => none

end TypedFlags.Toml
