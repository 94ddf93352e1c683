import TypedFlags.Json.Basic
import TypedFlags.Binary64.Shortest
/-!
# Compact JSON text

The one way in which JSON is written: no blanks, members in their order, and in strings only what
has to be escaped (the quote, the backslash and the control characters, which have short forms where
there is one). Numbers that are integers have no point; all others have a point or an exponent, so
that reading the text gives the same kind of number back.
-/

set_option autoImplicit false

namespace TypedFlags

namespace Json

/-- Floating-point numbers are written out from `10 ^ (-5)` up to, but not at, `10 ^ 16`. -/
def floatLayout : Binary64.Layout where
  plainFrom := -5
  plainBelow := 16

/-- A hexadecimal digit, in lower case. -/
def hexDigit (n : Nat) : Char := Nat.digitChar (n % 16)

/-- A character as it stands in a string. -/
def escape (c : Char) : List Char :=
  match c with
  | '"' => ['\\', '"']
  | '\\' => ['\\', '\\']
  | '\x08' => ['\\', 'b']
  | '\x0c' => ['\\', 'f']
  | '\n' => ['\\', 'n']
  | '\r' => ['\\', 'r']
  | '\t' => ['\\', 't']
  | c =>
    if c.toNat < 0x20 then ['\\', 'u', '0', '0', hexDigit (c.toNat / 16), hexDigit c.toNat]
    else [c]

/-- A string between its quotes. -/
def quoted (s : String) : List Char := '"' :: s.toList.flatMap escape ++ ['"']

/-- The text of a number. -/
def Number.compact : Number → List Char
  | .integer n _ =>
    if n < 0 then '-' :: Nat.toDigits 10 n.natAbs else Nat.toDigits 10 n.natAbs
  | .float x => floatLayout.text x

mutual

/-- The text of a document. -/
def compact : Json → List Char
  | .null => ['n', 'u', 'l', 'l']
  | .bool true => ['t', 'r', 'u', 'e']
  | .bool false => ['f', 'a', 'l', 's', 'e']
  | .number n => n.compact
  | .string s => quoted s
  | .array items => '[' :: compactItems items ++ [']']
  | .object members => '{' :: compactMembers members ++ ['}']

/-- The texts of the items of an array, with commas between them. -/
def compactItems : List Json → List Char
  | [] => []
  | [item] => compact item
  | item :: items => compact item ++ ',' :: compactItems items

/-- The texts of the members of an object, with commas between them. -/
def compactMembers : List (String × Json) → List Char
  | [] => []
  | [(name, value)] => quoted name ++ ':' :: compact value
  | (name, value) :: members => quoted name ++ ':' :: compact value ++ ',' :: compactMembers members

end

/-- The text of a document, as a string. -/
def text (v : Json) : String := String.ofList v.compact

end Json

end TypedFlags
