import TypedFlags.Json.Reader
import TypedFlags.Literal.Replacement
import TypedFlags.Text.Word
/-!
# Object literals

A literal is JSON written the way an operator types it: keys may be bare, strings may be in single
quotes, and a comma may stand before a closing bracket. `normalize` turns the three liberties into
strict JSON one after the other, each by a `Replacement` over the whole text; `Literal.read` reads
what comes out.

**Double-quoted strings are copied** by all three before anything else is tried, so what stands in
them is left alone. A quoted string ends at its first quote that no backslash stands before; a
backslash at the end of a line escapes nothing, and a quote with no such end is an ordinary
character.
-/

set_option autoImplicit false

namespace TypedFlags.Literal

/-- The contents of a quoted string, behind its opening quote, and the text behind its closing
    quote. -/
def quotedBody (quote : Char) : List Char → Option (List Char × List Char)
  | [] => none
  | c :: rest =>
    if c = quote then some ([], rest)
    else if c = '\\' then
      match rest with
      | [] => none
      | d :: rest =>
        if d = '\n' then none
        else (quotedBody quote rest).map fun (body, rest) => (c :: d :: body, rest)
    else (quotedBody quote rest).map fun (body, rest) => (c :: body, rest)

theorem quotedBody_shorter {quote : Char} {text body rest : List Char}
    (h : quotedBody quote text = some (body, rest)) : rest.length < text.length := by
  fun_induction quotedBody quote text generalizing body rest with
  | case1 => cases h
  | case2 => cases h; simp
  | case3 => cases h
  | case4 => cases h
  | case5 _ d rest _ ih =>
    obtain ⟨p, hp, he⟩ := Option.map_eq_some_iff.1 h
    cases he
    have := ih hp
    simp; omega
  | case6 _ rest _ _ ih =>
    obtain ⟨p, hp, he⟩ := Option.map_eq_some_iff.1 h
    cases he
    have := ih hp
    simp; omega

/-- A double-quoted string at the front of a text, as it stands. -/
def doubleQuoted? : List Char → Option (List Char × List Char)
  | '"' :: text => (quotedBody '"' text).map fun (body, rest) => ('"' :: body ++ ['"'], rest)
  | _ => none

theorem doubleQuoted?_shorter {text out rest : List Char}
    (h : doubleQuoted? text = some (out, rest)) : rest.length < text.length := by
  unfold doubleQuoted? at h
  split at h
  · obtain ⟨p, hp, he⟩ := Option.map_eq_some_iff.1 h
    cases he
    have := quotedBody_shorter hp
    simp; omega
  · cases h

/-! ## Single quotes -/

/-- Takes the backslash away before each of the given quotes. -/
def unescapeQuote (quote : Char) : List Char → List Char
  | [] => []
  | [c] => [c]
  | c :: d :: tail =>
    if c = '\\' ∧ d = quote then quote :: unescapeQuote quote tail
    else c :: unescapeQuote quote (d :: tail)

/-- Puts a backslash before each double quote. -/
def escapeDouble (text : List Char) : List Char :=
  text.flatMap fun c => if c = '"' then ['\\', '"'] else [c]

/-- The contents of a single-quoted string, for double quotes: no quote in it is escaped but the
    double quotes, and those all are. -/
def requote (body : List Char) : List Char :=
  escapeDouble (unescapeQuote '"' (unescapeQuote '\'' body))

/-- A single-quoted string at the front of a text, in double quotes. -/
def singleQuoted? : List Char → Option (List Char × List Char)
  | '\'' :: text =>
    (quotedBody '\'' text).map fun (body, rest) => ('"' :: requote body ++ ['"'], rest)
  | _ => none

theorem singleQuoted?_shorter {text out rest : List Char}
    (h : singleQuoted? text = some (out, rest)) : rest.length < text.length := by
  unfold singleQuoted? at h
  split at h
  · obtain ⟨p, hp, he⟩ := Option.map_eq_some_iff.1 h
    cases he
    have := quotedBody_shorter hp
    simp; omega
  · cases h

/-! ## Bare keys -/

/-- What a bare key may start with. -/
def isKeyStart (c : Char) : Bool := c.isAlpha || c = '_' || c = '$'

/-- What a bare key may go on with: word characters of any script, and the dollar sign. -/
def isKeyPart (c : Char) : Bool := Text.isWord c || c = '$'

/-- The white space at the front of a text. -/
def gap (text : List Char) : List Char := text.takeWhile Text.isWhiteSpace

/-- A text from behind the white space at its front. -/
def afterGap (text : List Char) : List Char := text.dropWhile Text.isWhiteSpace

theorem afterGap_length (text : List Char) : (afterGap text).length ≤ text.length :=
  (List.dropWhile_suffix _).length_le

/-- A bare key at the front of a text, behind its `{` or comma, with its colon: the key in
    quotes. White space may stand around the key. -/
def keyAndColon? (text : List Char) : Option (List Char × List Char) :=
  match afterGap text with
  | [] => none
  | c :: rest =>
    if isKeyStart c then
      match afterGap (rest.dropWhile isKeyPart) with
      | ':' :: tail =>
        some (gap text ++ '"' :: c :: rest.takeWhile isKeyPart ++
          '"' :: gap (rest.dropWhile isKeyPart) ++ [':'], tail)
      | _ => none
    else none

/-- A `{` or comma at the front of a text and a bare key behind it, with the key in quotes. -/
def bareKey? : List Char → Option (List Char × List Char)
  | [] => none
  | c :: text =>
    if c = '{' ∨ c = ',' then (keyAndColon? text).map fun (out, rest) => (c :: out, rest)
    else none

theorem keyAndColon?_shorter {text out rest : List Char}
    (h : keyAndColon? text = some (out, rest)) : rest.length < text.length := by
  unfold keyAndColon? at h
  have h₁ := afterGap_length text
  split at h
  · cases h
  · next c tail he =>
    rw [he] at h₁
    split at h
    · split at h
      · next after hc =>
        have h₂ := afterGap_length (tail.dropWhile isKeyPart)
        have h₃ := (List.dropWhile_suffix (p := isKeyPart) (l := tail)).length_le
        rw [hc] at h₂
        cases h
        simp at h₁ h₂; omega
      · cases h
    · cases h

theorem bareKey?_shorter {text out rest : List Char} (h : bareKey? text = some (out, rest)) :
    rest.length < text.length := by
  unfold bareKey? at h
  split at h
  · cases h
  · split at h
    · obtain ⟨p, hp, he⟩ := Option.map_eq_some_iff.1 h
      cases he
      have := keyAndColon?_shorter hp
      simp; omega
    · cases h

/-! ## Trailing commas -/

/-- A comma at the front of a text and a closing bracket or brace behind it, without the comma. -/
def trailingComma? : List Char → Option (List Char × List Char)
  | ',' :: text =>
    match afterGap text with
    | [] => none
    | c :: rest => if c = '}' ∨ c = ']' then some (gap text ++ [c], rest) else none
  | _ => none

theorem trailingComma?_shorter {text out rest : List Char}
    (h : trailingComma? text = some (out, rest)) : rest.length < text.length := by
  unfold trailingComma? at h
  split at h
  · next tail =>
    have h₁ := afterGap_length tail
    split at h
    · cases h
    · next he =>
      rw [he] at h₁
      split at h <;> cases h
      simp at h₁ ⊢; omega
  · cases h

/-! ## The three replacements -/

/-- The replacement that copies double-quoted strings and otherwise does what `other` does. -/
def outsideStrings (other : List Char → Option (List Char × List Char))
    (h : ∀ {text out rest : List Char}, other text = some (out, rest) →
      rest.length < text.length) : Replacement where
  replace? text := (doubleQuoted? text).or (other text)
  shorter hr := by
    rcases Option.or_eq_some_iff.1 hr with hd | ⟨_, ho⟩
    · exact doubleQuoted?_shorter hd
    · exact h ho

/-- Puts single-quoted strings in double quotes. -/
def singleQuotes : Replacement := outsideStrings singleQuoted? singleQuoted?_shorter

/-- Puts bare keys in double quotes. -/
def bareKeys : Replacement := outsideStrings bareKey? bareKey?_shorter

/-- Drops commas before closing brackets and braces. -/
def trailingCommas : Replacement := outsideStrings trailingComma? trailingComma?_shorter

/-- The strict form of a literal. -/
def normalize (text : List Char) : List Char :=
  trailingCommas.apply (bareKeys.apply (singleQuotes.apply text))

/-- The value that a literal writes. -/
def read (text : String) : Except Json.Error Json :=
  Json.readValue (String.ofList (normalize text.toList))

end TypedFlags.Literal
