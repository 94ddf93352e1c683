import TypedFlags.Json.Reader
/-!
# The grammar of JSON text

What it means that a text writes a document, said without the reader: every way of writing a string,
a number and the blanks between the tokens is there.

The relations hold between two places of a text. `Writes v text rest` says that `v` is written at the
front of `text` and that `rest` is what stands behind it; so a text that writes `v` and ends there is
one with `Writes v text rest` and nothing but blanks in `rest` (`IsText`).

Members are kept as written, repeated names included, and a number is the value of its digits
(`Numeral.value`). **A number has to end**: behind it stands a blank, a comma, a closing bracket or
nothing. No document is lost by that, for nothing else can stand behind a value.
-/

set_option autoImplicit false

namespace TypedFlags.Json

/-! ## Blanks and strings -/

/-- Blanks may stand at the front of a text before the rest. -/
inductive Gap : List Char → List Char → Prop
  | none (text : List Char) : Gap text text
  | blank {c : Char} {text rest : List Char} (hc : isBlank c = true) (h : Gap text rest) :
      Gap (c :: text) rest

/-- Four hexadecimal digits and the unit that they give. -/
inductive HexText : List Char → Nat → Prop
  | intro {a b c d : Char} {i j k l : Nat} (ha : hexValue? a = some i) (hb : hexValue? b = some j)
      (hc : hexValue? c = some k) (hd : hexValue? d = some l) :
      HexText [a, b, c, d] (((i * 16 + j) * 16 + k) * 16 + l)

/-- What stands behind a backslash, and the character that it means. -/
inductive EscapeText : List Char → Char → Prop
  | plain {d c : Char} (h : plainEscape? d = some c) : EscapeText [d] c
  | unit {ds : List Char} {n : Nat} (h : HexText ds n) (hl : isLeading n = false)
      (ht : isTrailing n = false) : EscapeText ('u' :: ds) (Char.ofNat n)
  | pair {ds es : List Char} {m n : Nat} (hd : HexText ds m) (hm : isLeading m = true)
      (he : HexText es n) (hn : isTrailing n = true) :
      EscapeText ('u' :: (ds ++ '\\' :: 'u' :: es))
        (Char.ofNat (0x10000 + (m - 0xD800) * 0x400 + (n - 0xDC00)))

/-- The text between the quotes of a string, and the characters that it means. -/
inductive Spells : List Char → List Char → Prop
  | nil : Spells [] []
  | plain {c : Char} {text cs : List Char} (hq : c ≠ '"') (hb : c ≠ '\\') (hc : 0x20 ≤ c.toNat)
      (h : Spells text cs) : Spells (c :: text) (c :: cs)
  | escape {e : List Char} {c : Char} {text cs : List Char} (he : EscapeText e c)
      (h : Spells text cs) : Spells ('\\' :: (e ++ text)) (c :: cs)

/-! ## Numbers -/

/-- One or more digits. -/
def IsDigits (ds : List Char) : Prop := ds ≠ [] ∧ ∀ c ∈ ds, c.isDigit = true

/-- The integer part of a number. -/
inductive WholeText : List Char → Prop
  | zero : WholeText ['0']
  | digits {ds : List Char} (h : IsDigits ds) (h0 : ds.head? ≠ some '0') : WholeText ds

/-- The fraction of a number, and its digits. -/
inductive FractionText : List Char → List Char → Prop
  | none : FractionText [] []
  | digits {ds : List Char} (h : IsDigits ds) : FractionText ('.' :: ds) ds

/-- The exponent of a number: whether it is negative, and its digits. -/
inductive ExponentText : List Char → Option (Bool × List Char) → Prop
  | none : ExponentText [] none
  | unsigned {e : Char} {ds : List Char} (he : e = 'e' ∨ e = 'E') (h : IsDigits ds) :
      ExponentText (e :: ds) (some (false, ds))
  | plus {e : Char} {ds : List Char} (he : e = 'e' ∨ e = 'E') (h : IsDigits ds) :
      ExponentText (e :: '+' :: ds) (some (false, ds))
  | minus {e : Char} {ds : List Char} (he : e = 'e' ∨ e = 'E') (h : IsDigits ds) :
      ExponentText (e :: '-' :: ds) (some (true, ds))

/-- The sign of a number. -/
def signText (negative : Bool) : List Char := if negative then ['-'] else []

/-- A number and a text for it. -/
inductive NumberText : List Char → Number → Prop
  | intro {whole fraction fs exponent : List Char} {e : Option (Bool × List Char)} {n : Number}
      (negative : Bool) (hw : WholeText whole) (hf : FractionText fraction fs)
      (he : ExponentText exponent e)
      (hv : (Numeral.mk whole fs e).value negative [] = .ok n) :
      NumberText (signText negative ++ (whole ++ (fraction ++ exponent))) n

/-- A number does not go on at the front of a text. -/
def Ends (rest : List Char) : Prop :=
  ∀ c ∈ rest.head?, isBlank c = true ∨ c = ',' ∨ c = ']' ∨ c = '}'

/-! ## Values -/

/-- The name of a member and the colon behind it. -/
inductive WriteName : String → List Char → List Char → Prop
  | intro {text body name next rest : List Char} (hg : Gap text ('"' :: (body ++ '"' :: next)))
      (h : Spells body name) (hc : Gap next (':' :: rest)) :
      WriteName (String.ofList name) text rest

mutual

/-- A document at the front of a text, perhaps behind blanks. -/
inductive Writes : Json → List Char → List Char → Prop
  | blank {v : Json} {c : Char} {text rest : List Char} (hc : isBlank c = true)
      (h : Writes v text rest) : Writes v (c :: text) rest
  | null (rest : List Char) : Writes .null ('n' :: 'u' :: 'l' :: 'l' :: rest) rest
  | true (rest : List Char) : Writes (.bool true) ('t' :: 'r' :: 'u' :: 'e' :: rest) rest
  | false (rest : List Char) : Writes (.bool false) ('f' :: 'a' :: 'l' :: 's' :: 'e' :: rest) rest
  | number {n : Number} {text rest : List Char} (h : NumberText text n) (he : Ends rest) :
      Writes (.number n) (text ++ rest) rest
  | string {text cs : List Char} (h : Spells text cs) (rest : List Char) :
      Writes (.string (String.ofList cs)) ('"' :: (text ++ '"' :: rest)) rest
  | emptyArray {text rest : List Char} (h : Gap text (']' :: rest)) :
      Writes (.array []) ('[' :: text) rest
  | array {items : List Json} {text rest : List Char} (h : WriteItems items text rest) :
      Writes (.array items) ('[' :: text) rest
  | emptyObject {text rest : List Char} (h : Gap text ('}' :: rest)) :
      Writes (.object []) ('{' :: text) rest
  | object {members : List (String × Json)} {text rest : List Char}
      (h : WriteMembers members text rest) : Writes (.object members) ('{' :: text) rest

/-- The items of an array from the first on, and the closing bracket. -/
inductive WriteItems : List Json → List Char → List Char → Prop
  | last {v : Json} {text mid rest : List Char} (h : Writes v text mid)
      (hc : Gap mid (']' :: rest)) : WriteItems [v] text rest
  | more {v : Json} {items : List Json} {text mid next rest : List Char} (h : Writes v text mid)
      (hc : Gap mid (',' :: next)) (hs : WriteItems items next rest) :
      WriteItems (v :: items) text rest

/-- The members of an object from the first on, and the closing brace. -/
inductive WriteMembers : List (String × Json) → List Char → List Char → Prop
  | last {name : String} {v : Json} {text value mid rest : List Char} (hn : WriteName name text value)
      (h : Writes v value mid) (hc : Gap mid ('}' :: rest)) : WriteMembers [(name, v)] text rest
  | more {name : String} {v : Json} {members : List (String × Json)}
      {text value mid next rest : List Char} (hn : WriteName name text value)
      (h : Writes v value mid) (hc : Gap mid (',' :: next)) (hs : WriteMembers members next rest) :
      WriteMembers ((name, v) :: members) text rest

end

/-- A whole text that writes a document. -/
def IsText (v : Json) (text : List Char) : Prop := ∃ rest, Writes v text rest ∧ Gap rest []

end TypedFlags.Json
