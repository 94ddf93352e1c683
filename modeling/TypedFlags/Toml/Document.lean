import TypedFlags.Toml.Value
/-!
# TOML documents

A document is a run of sections: the entries in front of the first header, then the entries under
each header. `table?` puts the sections together to a single table. Sections of one table need not
stand next to each other, but **a table has at most one section of its own**, apart from those that
dotted headers below it imply.

A header in double brackets starts an element of an array of tables. Everything under that name up to
the next such header belongs to the element.
-/

set_option autoImplicit false

namespace TypedFlags.Toml

/-- A run of entries under a header. The header says where its table is, seen from the table that the
    section is read for. -/
structure Section where
  header : List String
  isArray : Bool
  entries : List (String × Node)

/-! ## Reading sections -/

/-- The end of a line, perhaps behind a comment. -/
def lineEnd? (ts : List Token) : Option (List Token) :=
  match dropBlank ts with
  | [] | [.comment] => some []
  | .newline :: rest | .comment :: .newline :: rest => some rest
  | _ => none

/-- Reads the rest of a header, behind its opening brackets. -/
def headerRest? (isArray : Bool) (ts : List Token) : Option (Section × List Token) := do
  let (header, rest) ← key? (dropBlank ts)
  let rest ← match isArray, rest with
    | false, .rightBracket :: rest => some rest
    | true, .rightBracket :: .rightBracket :: rest => some rest
    | _, _ => none
  return (⟨header, isArray, []⟩, ← lineEnd? rest)

/-- Reads a line with an entry into a section. -/
def entryLine? (current : Section) (ts : List Token) : Option (Section × List Token) := do
  let (key, rest) ← key? ts
  let rest ← equals? rest
  let (v, rest) ← value? rest
  let entries ← insert? key v current.entries
  return (⟨current.header, current.isArray, entries⟩, ← lineEnd? rest)

/-- Reads the rest of a document in at most `steps` lines, in the section `current`. -/
def sectionsWithin? (steps : Nat) (current : Section) (ts : List Token) : Option (List Section) :=
  match steps with
  | 0 => none
  | steps + 1 =>
    match dropLines ts with
    | [] => some [current]
    | .leftBracket :: .leftBracket :: rest => do
      let (next, rest) ← headerRest? true rest
      return current :: (← sectionsWithin? steps next rest)
    | .leftBracket :: rest => do
      let (next, rest) ← headerRest? false rest
      return current :: (← sectionsWithin? steps next rest)
    | ts => do
      let (current, rest) ← entryLine? current ts
      sectionsWithin? steps current rest

/-- The sections of a document. Every line takes a token. -/
def sections? (ts : List Token) : Option (List Section) :=
  sectionsWithin? (ts.length + 1) ⟨[], false, []⟩ ts

/-! ## Putting sections together -/

/-- A section seen from the table of the given name, if it is under that. -/
def Section.under? (name : String) (s : Section) : Option Section :=
  match s.header with
  | [] => none
  | first :: rest => if first = name then some ⟨rest, s.isArray, s.entries⟩ else none

/-- Whether a section starts an element of the array of tables that it is read for. -/
def Section.startsElement (s : Section) : Bool := s.header.isEmpty && s.isArray

/-- The sections of each element of an array of tables, behind those in front of the first element.
    The section that starts an element is the own section of the element's table. -/
def elements : List Section → List Section × List (List Section)
  | [] => ([], [])
  | s :: rest =>
    let (leading, later) := elements rest
    if s.startsElement then ([], (⟨[], false, s.entries⟩ :: leading) :: later)
    else (s :: leading, later)

/-- The entries of a table's own section; none if there are two, or if it is to be an array. -/
def ownEntries? (sections : List Section) : Option (List (String × Json)) :=
  match sections.filter (·.header.isEmpty) with
  | [] => some []
  | [s] => if s.isArray then none else some (Node.listToJson s.entries)
  | _ => none

/-- The names that are directly under a table, in the order in which they come up. -/
def names (sections : List Section) : List String :=
  (sections.filterMap (·.header.head?)).eraseDups

/-- The table that sections with headers of at most `depth` parts make together. What a name holds
    is an array of tables if the first section under it starts an element. -/
def table? (depth : Nat) (sections : List Section) : Option (List (String × Json)) := do
  let own ← ownEntries? sections
  match depth with
  | 0 => return own
  | depth + 1 =>
    let inner ← (names sections).mapM fun name => do
      let part := sections.filterMap (·.under? name)
      if part.head?.any (·.startsElement) then
        let tables ← (elements part).2.mapM (table? depth)
        return (name, Json.array (tables.map .object))
      else
        return (name, Json.object (← table? depth part))
    return own ++ inner

/-- The top-level entries of the document that a text writes. -/
def entries? (text : String) : Option (List (String × Json)) := do
  let ts ← tokens? (dropMark (plainLines text.toList))
  let sections ← sections? ts
  table? ((sections.map (·.header.length)).foldl max 0) sections

end TypedFlags.Toml
