import TypedFlags.Toml.Scalar
/-!
# Values of TOML

TOML values are read into the same data as JSON documents: an array is an array, and a table is an
object with its entries as written. The values of an array may be of different types, and the array
may run over several lines; an inline table stands on one.

A dotted key opens a table of its own, to which further dotted keys of the same table may add.
**Keys are not compared with each other otherwise**: an entry that is there twice is kept twice, and
it is for the reader of the table to refuse it.
-/

set_option autoImplicit false

namespace TypedFlags.Toml

/-! ## Skipping -/

/-- Tokens from the first on that is no blank. -/
def dropBlank : List Token → List Token
  | .blank _ :: ts => ts
  | ts => ts

/-- Tokens from the first on that is neither a blank nor a line end nor a comment. -/
def dropLines (ts : List Token) : List Token :=
  ts.dropWhile fun t =>
    match t with
    | .blank _ | .newline | .comment => true
    | _ => false

theorem dropBlank_length (ts : List Token) : (dropBlank ts).length ≤ ts.length := by
  unfold dropBlank
  split <;> simp

/-! ## Keys and entries -/

/-- One part of a key: a bare word or a string on one line. -/
def keyPart? : List Token → Option (String × List Token)
  | .bare text :: rest => some (String.ofList text, rest)
  | .string text false :: rest => some (text, rest)
  | _ => none

theorem keyPart?_length {ts rest : List Token} {name : String}
    (h : keyPart? ts = some (name, rest)) : rest.length < ts.length := by
  unfold keyPart? at h
  split at h <;> cases h <;> simp

/-- A key: one part, or several with points between them. Blanks may stand around the points and
    behind the key. -/
def key? (ts : List Token) : Option (List String × List Token) :=
  match _h : keyPart? ts with
  | none => none
  | some (name, after) =>
    match _hd : dropBlank after with
    | .period :: rest => (key? (dropBlank rest)).map fun (names, rest) => (name :: names, rest)
    | rest => some ([name], rest)
termination_by ts.length
decreasing_by
  have h₁ := keyPart?_length _h
  have h₂ := dropBlank_length after
  have h₃ := dropBlank_length rest
  rw [_hd] at h₂
  simp at h₂; omega

/-- What stands under a key: a value, or the table that dotted keys through it make. -/
inductive Node where
  | value (v : Json)
  | dotted (entries : List (String × Node))

/-- Adds a value under a key. A dotted key goes through the first entry of its first part, and that
    has to be the table of other dotted keys. -/
def insert? (key : List String) (v : Json) (entries : List (String × Node)) :
    Option (List (String × Node)) :=
  match key with
  | [] => none
  | [name] => some (entries ++ [(name, .value v)])
  | name :: rest =>
    match entries.findIdx? (·.1 = name) with
    | none => (insert? rest v []).map fun inner => entries ++ [(name, .dotted inner)]
    | some i =>
      match entries[i]? with
      | some (_, .dotted inner) =>
        (insert? rest v inner).map fun inner => entries.set i (name, .dotted inner)
      | _ => none

mutual

/-- The value of a node. -/
def Node.toJson : Node → Json
  | .value v => v
  | .dotted entries => .object (Node.listToJson entries)
termination_by structural node => node

/-- The values of the nodes of a table. -/
def Node.listToJson : List (String × Node) → List (String × Json)
  | [] => []
  | (name, node) :: entries => (name, node.toJson) :: Node.listToJson entries
termination_by structural entries => entries

end

/-! ## Values -/

/-- The equals sign of an entry, behind its key, with the blanks around it. -/
def equals? (ts : List Token) : Option (List Token) :=
  match dropBlank ts with
  | .equals :: rest => some (dropBlank rest)
  | _ => none

mutual

/-- Reads a value. `steps` bounds how many values and separators may be open at once. -/
def valueWithin? (steps : Nat) (ts : List Token) : Option (Json × List Token) :=
  match steps with
  | 0 => none
  | steps + 1 =>
    match ts with
    | .string text _ :: rest => some (.string text, rest)
    | .bare text :: rest => bareValue? text rest
    | .plus :: .bare text :: rest => number? text rest
    | .leftBracket :: rest => (itemsWithin? steps rest).map fun (vs, rest) => (.array vs, rest)
    | .leftBrace :: rest =>
      match dropBlank rest with
      | .rightBrace :: rest => some (.object [], rest)
      | rest =>
        (entriesWithin? steps [] rest).map fun (entries, rest) =>
          (.object (Node.listToJson entries), rest)
    | _ => none
termination_by structural steps

/-- Reads the rest of an array, where an item or its closing bracket may stand. -/
def itemsWithin? (steps : Nat) (ts : List Token) : Option (List Json × List Token) :=
  match steps with
  | 0 => none
  | steps + 1 =>
    match dropLines ts with
    | .rightBracket :: rest => some ([], rest)
    | ts => do
      let (v, rest) ← valueWithin? steps ts
      match dropLines rest with
      | .rightBracket :: rest => some ([v], rest)
      | .comma :: rest => (itemsWithin? steps rest).map fun (vs, rest) => (v :: vs, rest)
      | _ => none
termination_by structural steps

/-- Reads the rest of an inline table, where an entry has to stand. -/
def entriesWithin? (steps : Nat) (entries : List (String × Node)) (ts : List Token) :
    Option (List (String × Node) × List Token) :=
  match steps with
  | 0 => none
  | steps + 1 => do
    let (key, rest) ← key? ts
    let rest ← equals? rest
    let (v, rest) ← valueWithin? steps rest
    let entries ← insert? key v entries
    match dropBlank rest with
    | .rightBrace :: rest => some (entries, rest)
    | .comma :: rest => entriesWithin? steps entries (dropBlank rest)
    | _ => none
termination_by structural steps

end

/-- Reads a value. Of two things that open one inside the other at least one takes a token, so twice
    as many steps as there are tokens are enough. -/
def value? (ts : List Token) : Option (Json × List Token) := valueWithin? (2 * ts.length + 1) ts

end TypedFlags.Toml
