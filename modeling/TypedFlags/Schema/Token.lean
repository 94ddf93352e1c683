import TypedFlags.Schema.Basic
/-!
# Tokens of schema text

Schema text is cut into **words** and **punctuation**, with layout (spaces, tabs, carriage returns,
line feeds) between them. Cutting is by longest match: a word runs on as long as it can, and the two
brackets of `[]` are one token exactly when nothing stands between them.

Every token has one spelling (`Token.spelling`), and cutting a token off a text removes precisely
that spelling (`Token.cut?_eq_some`). That is the one fact the rest of the library needs about
cutting: it gives the offsets of tokens and the end of every loop over them.
-/

set_option autoImplicit false

namespace TypedFlags.Schema

/-- One token of schema text. -/
inductive Token where
  | typeKeyword
  | interfaceKeyword
  | primitive (kind : Primitive)
  | identifier (name : String)
  | leftBrace
  | rightBrace
  | leftBracket
  | rightBracket
  | arraySuffix
  | question
  | comma
  | colon
  | equals
  deriving DecidableEq, Repr

/-- Layout: it separates tokens and means nothing else. -/
def isLayout (c : Char) : Bool := c = ' ' || c = '\t' || c = '\r' || c = '\n'

/-- What a word may start with: an ASCII letter, `_` or `$`. -/
def isWordStart (c : Char) : Bool := c.isAlpha || c = '_' || c = '$'

/-- What a word may go on with: an ASCII letter or digit, or `_`. A dollar sign only starts one. -/
def isWordPart (c : Char) : Bool := c.isAlphanum || c = '_'

namespace Token

/-- The text of a token. -/
def spelling : Token → String
  | typeKeyword => "type"
  | interfaceKeyword => "interface"
  | primitive kind => kind.keyword
  | identifier name => name
  | leftBrace => "\x7b"
  | rightBrace => "\x7d"
  | leftBracket => "["
  | rightBracket => "]"
  | arraySuffix => "[]"
  | question => "?"
  | comma => ","
  | colon => ":"
  | equals => "="

/-- The token that a whole word is: one of the seven keywords, or an identifier. -/
def ofWord (word : String) : Token :=
  if word = "type" then typeKeyword
  else if word = "interface" then interfaceKeyword
  else match Primitive.ofKeyword? word with
    | some kind => primitive kind
    | none => identifier word

/-- The punctuation token of a single character. -/
def ofPunctuation? : Char → Option Token
  | '{' => some leftBrace
  | '}' => some rightBrace
  | '[' => some leftBracket
  | ']' => some rightBracket
  | '?' => some question
  | ',' => some comma
  | ':' => some colon
  | '=' => some equals
  | _ => none

/-- Cuts the longest token off the front of a text. -/
def cut? : List Char → Option (Token × List Char)
  | '[' :: ']' :: rest => some (arraySuffix, rest)
  | c :: rest =>
    if isWordStart c then
      some (ofWord (String.ofList (c :: rest.takeWhile isWordPart)), rest.dropWhile isWordPart)
    else (ofPunctuation? c).map (·, rest)
  | [] => none

/-- A word is spelled as it was read, whichever token it turned out to be. -/
theorem spelling_ofWord (word : String) : (ofWord word).spelling = word := by
  unfold ofWord
  split
  · simp_all [spelling]
  · split
    · simp_all [spelling]
    · split
      · next kind h =>
        have := List.find?_some h
        simpa [spelling] using this
      · rfl

/-- A punctuation token is spelled by its character. -/
theorem spelling_ofPunctuation? {c : Char} {t : Token} (h : ofPunctuation? c = some t) :
    t.spelling = String.ofList [c] := by
  unfold ofPunctuation? at h
  split at h <;> first | (cases h; rfl) | simp at h

/-- **Cutting a token off removes its spelling and nothing else.** -/
theorem cut?_eq_some {text rest : List Char} {t : Token} (h : cut? text = some (t, rest)) :
    text = t.spelling.toList ++ rest := by
  unfold cut? at h
  split at h
  · cases h; rfl
  · next c tail _ =>
    split at h
    · cases h
      simp [spelling_ofWord, List.takeWhile_append_dropWhile]
    · obtain ⟨u, hu, he⟩ := Option.map_eq_some_iff.1 h
      cases he
      simp [spelling_ofPunctuation? hu]
  · cases h

/-- No token is spelled by nothing. -/
theorem cut?_shorter {text rest : List Char} {t : Token} (h : cut? text = some (t, rest)) :
    rest.length < text.length := by
  unfold cut? at h
  split at h
  · cases h; simp only [List.length_cons]; omega
  · next c tail _ =>
    split at h
    · cases h
      have := (List.dropWhile_suffix (p := isWordPart) (l := tail)).length_le
      simp; omega
    · obtain ⟨u, _, he⟩ := Option.map_eq_some_iff.1 h
      cases he
      simp
  · cases h

end Token

/-! ## A whole text -/

/-- A token and the number of characters before it. -/
structure Lexeme where
  offset : Nat
  token : Token
  deriving DecidableEq, Repr

/-- All tokens of `text`, which starts `offset` characters into the whole. Fails with the first
    character that no token starts with, and its offset. -/
def lexemes (text : List Char) (offset : Nat) : Except (Char × Nat) (List Lexeme) :=
  match text with
  | [] => .ok []
  | c :: rest =>
    if isLayout c then lexemes rest (offset + 1)
    else match _h : Token.cut? (c :: rest) with
      | none => .error (c, offset)
      | some (token, tail) =>
        (lexemes tail (offset + token.spelling.length)).map (⟨offset, token⟩ :: ·)
termination_by text.length
decreasing_by
  · simp
  · exact Token.cut?_shorter _h

/-- The offset of the first `{` that opens an object beyond the nesting limit, with `depth` objects
    open before `ls`. A `}` too many closes nothing. -/
def tooDeep? (depth : Nat) : List Lexeme → Option Nat
  | [] => none
  | l :: ls =>
    match l.token with
    | .leftBrace => if maxNesting ≤ depth then some l.offset else tooDeep? (depth + 1) ls
    | .rightBrace => tooDeep? (depth - 1) ls
    | _ => tooDeep? depth ls

end TypedFlags.Schema
