import TypedFlags.Json.Reader
/-!
# Tokens of TOML text

TOML is read by its version 0.5. This module cuts a text into tokens: blanks, line ends, comments,
punctuation, bare words (which serve as keys, numbers, dates and truth values alike) and strings in
their four forms.

Lines end with a line feed; a carriage return in front of one belongs to it, in strings too, and may
stand nowhere else. Other control characters but the tab may not stand anywhere.
-/

set_option autoImplicit false

namespace TypedFlags.Toml

/-- One token of TOML text. -/
inductive Token where
  | blank (text : List Char)
  | newline
  | comment
  | equals
  | period
  | comma
  | colon
  | plus
  | leftBrace
  | rightBrace
  | leftBracket
  | rightBracket
  | bare (text : List Char)
  | string (text : String) (isMultiline : Bool)
  deriving DecidableEq

/-- A text without the carriage returns of its line ends. -/
def plainLines : List Char → List Char
  | '\r' :: '\n' :: rest => '\n' :: plainLines rest
  | c :: rest => c :: plainLines rest
  | [] => []

/-- A text without a byte-order mark at its front. -/
def dropMark : List Char → List Char
  | '\ufeff' :: rest => rest
  | text => text

/-- What separates words within a line. -/
def isSpace (c : Char) : Bool := c = ' ' || c = '\t'

/-- What bare words are made of. -/
def isBare (c : Char) : Bool := c.isAlphanum || c = '-' || c = '_'

/-- What comments are made of. -/
def inComment (c : Char) : Bool := c = '\t' || 0x20 ≤ c.toNat

/-- What may stand in a string as it is. -/
def inString (c : Char) : Bool := c = '\t' || (0x20 ≤ c.toNat && c ≠ '\x7f')

/-! ## Strings -/

/-- The character that a run of hexadecimal digits names, if there is one. -/
def hexCharacter? (ds : List Char) : Option Char := do
  let values ← ds.mapM Json.hexValue?
  let n := values.foldl (fun n d => 16 * n + d) 0
  if n.isValidChar then some (Char.ofNat n) else none

/-- Takes a given number of hexadecimal digits off a text. -/
def hexEscape? (length : Nat) (text : List Char) : Option (List Char × List Char) :=
  if text.length < length then none
  else (hexCharacter? (text.take length)).map fun c => ([c], text.drop length)

/-- A line end behind a backslash, with the blanks around it and the line ends after it. Nothing of
    that is part of the string. -/
def lineContinuation? (text : List Char) : Option (List Char) :=
  match text.dropWhile isSpace with
  | '\n' :: rest => some (rest.dropWhile fun c => isSpace c || c = '\n')
  | [] => some []
  | _ => none

/-- Reads an escape, behind its backslash: the characters it stands for. -/
def escape? (isMultiline : Bool) : List Char → Option (List Char × List Char)
  | [] => none
  | c :: rest =>
    match c with
    | '"' => some (['"'], rest)
    | '\\' => some (['\\'], rest)
    | 'b' => some (['\x08'], rest)
    | 'f' => some (['\x0c'], rest)
    | 'n' => some (['\n'], rest)
    | 'r' => some (['\r'], rest)
    | 't' => some (['\t'], rest)
    | 'u' => hexEscape? 4 rest
    | 'U' => hexEscape? 8 rest
    | _ =>
      if isMultiline && (isSpace c || c = '\n') then
        (lineContinuation? (c :: rest)).map ([], ·)
      else none

theorem lineContinuation?_length {text rest : List Char}
    (h : lineContinuation? text = some rest) : rest.length ≤ text.length := by
  unfold lineContinuation? at h
  have h₁ := (List.dropWhile_suffix (p := isSpace) (l := text)).length_le
  split at h
  · next tail he =>
    cases h
    rw [he] at h₁
    have h₂ := (List.dropWhile_suffix (p := fun c => isSpace c || c = '\n') (l := tail)).length_le
    simp at h₁; omega
  · cases h; simp
  · cases h

theorem hexEscape?_length {length : Nat} {text out rest : List Char}
    (h : hexEscape? length text = some (out, rest)) : rest.length ≤ text.length := by
  unfold hexEscape? at h
  split at h
  · cases h
  · obtain ⟨c, _, he⟩ := Option.map_eq_some_iff.1 h
    cases he
    simp

theorem escape?_length {isMultiline : Bool} {text out rest : List Char}
    (h : escape? isMultiline text = some (out, rest)) : rest.length ≤ text.length := by
  unfold escape? at h
  split at h
  · cases h
  · next c tail =>
    split at h
    case h_8 => exact Nat.le_succ_of_le (hexEscape?_length h)
    case h_9 => exact Nat.le_succ_of_le (hexEscape?_length h)
    case h_10 =>
      split at h
      · obtain ⟨r, hr, he⟩ := Option.map_eq_some_iff.1 h
        cases he
        exact lineContinuation?_length hr
      · cases h
    all_goals cases h; simp

/-- The form of a string: which quote delimits it (in a basic string, in double quotes, backslashes
    escape), and whether it is delimited by three of them and may run over several lines. -/
structure StringForm where
  isBasic : Bool
  isMultiline : Bool

/-- The quote that delimits strings of a form. -/
def StringForm.quote (form : StringForm) : Char := if form.isBasic then '"' else '\''

/-- How many quotes at a place in a multi-line string end it: from three quotes on, three of them do;
    one or two more just before them are part of the string. -/
def closing? (quote : Char) (text : List Char) : Option (List Char × List Char) :=
  let count := (text.takeWhile (· = quote)).length
  if count < 3 then none
  else
    let extra := min (count - 3) 2
    some (List.replicate extra quote, text.drop (3 + extra))

/-- Reads the rest of a string, behind its opening quotes. -/
def stringBody (form : StringForm) (text : List Char) : Option (List Char × List Char) :=
  match text with
  | [] => none
  | c :: tail =>
    if c = '\n' then
      if form.isMultiline then
        (stringBody form tail).map fun (cs, rest) => ('\n' :: cs, rest)
      else none
    else if c = form.quote then
      if form.isMultiline then
        match closing? form.quote (c :: tail) with
        | some end_ => some end_
        | none => (stringBody form tail).map fun (cs, rest) => (c :: cs, rest)
      else some ([], tail)
    else if form.isBasic && c = '\\' then
      match _h : escape? form.isMultiline tail with
      | some (out, after) => (stringBody form after).map fun (cs, rest) => (out ++ cs, rest)
      | none => none
    else if inString c then (stringBody form tail).map fun (cs, rest) => (c :: cs, rest)
    else none
termination_by text.length
decreasing_by
  · simp
  · simp
  · have := escape?_length _h
    simp; omega
  · simp

/-- Reads a string of a form, behind its opening quotes. -/
def stringOf? (form : StringForm) (text : List Char) : Option (Token × List Char) :=
  (stringBody form text).map fun (cs, rest) =>
    (.string (String.ofList cs) form.isMultiline, rest)

/-- A text without a line end at its front. -/
def dropLineEnd : List Char → List Char
  | '\n' :: rest => rest
  | text => text

/-- Reads a string, behind its first quote. Two more quotes open a multi-line string, of which a line
    end just behind them is not part; one more is the end of an empty string. -/
def stringToken? (isBasic : Bool) (text : List Char) : Option (Token × List Char) :=
  match text with
  | [] => none
  | c :: tail =>
    if c = StringForm.quote ⟨isBasic, false⟩ then
      match tail with
      | [] => some (.string "" false, [])
      | d :: rest =>
        if d = c then stringOf? ⟨isBasic, true⟩ (dropLineEnd rest)
        else some (.string "" false, d :: rest)
    else stringOf? ⟨isBasic, false⟩ (c :: tail)

/-! ## Cutting -/

/-- The punctuation of a single character. -/
def punctuation? : Char → Option Token
  | '\n' => some .newline
  | '=' => some .equals
  | '.' => some .period
  | ',' => some .comma
  | ':' => some .colon
  | '+' => some .plus
  | '{' => some .leftBrace
  | '}' => some .rightBrace
  | '[' => some .leftBracket
  | ']' => some .rightBracket
  | _ => none

/-- Cuts one token off the front of a text that starts with `c`. -/
def cut? (c : Char) (rest : List Char) : Option (Token × List Char) :=
  if isSpace c then some (.blank (c :: rest.takeWhile isSpace), rest.dropWhile isSpace)
  else if c = '#' then some (.comment, rest.dropWhile inComment)
  else if c = '\'' then stringToken? false rest
  else if c = '"' then stringToken? true rest
  else if isBare c then some (.bare (c :: rest.takeWhile isBare), rest.dropWhile isBare)
  else (punctuation? c).map (·, rest)

theorem stringBody_length {form : StringForm} {text cs rest : List Char}
    (h : stringBody form text = some (cs, rest)) : rest.length ≤ text.length := by
  fun_induction stringBody form text generalizing cs rest with
  | case1 | case3 | case8 | case10 => cases h
  | case2 tail _ ih =>
    obtain ⟨p, hp, he⟩ := Option.map_eq_some_iff.1 h
    cases he
    have := ih hp
    simp; omega
  | case4 tail _ _ end_ he =>
    cases h
    unfold closing? at he
    dsimp only at he
    split at he <;> cases he
    simp
  | case5 tail _ _ _ ih =>
    obtain ⟨p, hp, he⟩ := Option.map_eq_some_iff.1 h
    cases he
    have := ih hp
    simp; omega
  | case6 tail => cases h; simp
  | case7 _ tail _ _ _ out after hesc ih =>
    obtain ⟨p, hp, he⟩ := Option.map_eq_some_iff.1 h
    cases he
    have := ih hp
    have := escape?_length hesc
    simp; omega
  | case9 _ tail _ _ _ _ ih =>
    obtain ⟨p, hp, he⟩ := Option.map_eq_some_iff.1 h
    cases he
    have := ih hp
    simp; omega

theorem stringOf?_length {form : StringForm} {text rest : List Char} {t : Token}
    (h : stringOf? form text = some (t, rest)) : rest.length ≤ text.length := by
  obtain ⟨p, hp, he⟩ := Option.map_eq_some_iff.1 h
  cases he
  exact stringBody_length hp

theorem dropLineEnd_length (text : List Char) : (dropLineEnd text).length ≤ text.length := by
  unfold dropLineEnd
  split <;> simp

theorem stringToken?_length {isBasic : Bool} {text rest : List Char} {t : Token}
    (h : stringToken? isBasic text = some (t, rest)) : rest.length ≤ text.length := by
  unfold stringToken? at h
  split at h
  · cases h
  · split at h
    · split at h
      · cases h; simp
      · next d tail =>
        split at h
        · have := stringOf?_length h
          have := dropLineEnd_length tail
          simp; omega
        · cases h; simp
    · exact stringOf?_length h

theorem cut?_length {c : Char} {text rest : List Char} {t : Token}
    (h : cut? c text = some (t, rest)) : rest.length ≤ text.length := by
  unfold cut? at h
  split at h
  · cases h; exact (List.dropWhile_suffix _).length_le
  · split at h
    · cases h; exact (List.dropWhile_suffix _).length_le
    · split at h
      · exact stringToken?_length h
      · split at h
        · exact stringToken?_length h
        · split at h
          · cases h; exact (List.dropWhile_suffix _).length_le
          · obtain ⟨u, _, he⟩ := Option.map_eq_some_iff.1 h
            cases he; exact Nat.le_refl _

/-- All tokens of a text; none if something in it starts no token. -/
def tokens? (text : List Char) : Option (List Token) :=
  match text with
  | [] => some []
  | c :: tail =>
    match _h : cut? c tail with
    | some (t, rest) => (tokens? rest).map (t :: ·)
    | none => none
termination_by text.length
decreasing_by
  have := cut?_length _h
  simp; omega

end TypedFlags.Toml
