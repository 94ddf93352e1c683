/-!
# Places in a text

Two ways of naming a place, both with lines counted from 1 by line feeds.

* `Position.after` counts **characters**: it names the place behind the characters it is given, and
  the first column is 1. Schema text is reported this way.
* `Position.atByte` counts **bytes**: it names the place a number of UTF-8 bytes into a text, and the
  column is the number of bytes since the line's start, so it may lie inside a character. JSON text
  is reported this way.
-/

set_option autoImplicit false

namespace TypedFlags.Text

/-- A line and a column, as an error message gives them. -/
structure Position where
  line : Nat
  column : Nat
  deriving DecidableEq, Repr

/-- The place behind `before`, by characters: the column is one more than the number of
    characters since the last line feed. -/
def Position.after (before : List Char) : Position where
  line := before.count '\n' + 1
  column := (before.reverse.takeWhile (· ≠ '\n')).length + 1

/-- The place `offset` characters into `text`. -/
def Position.atOffset (text : List Char) (offset : Nat) : Position :=
  .after (text.take offset)

/-- How many bytes a text takes in UTF-8. -/
def byteCount : List Char → Nat
  | [] => 0
  | c :: text => c.utf8Size + byteCount text

@[simp] theorem byteCount_nil : byteCount [] = 0 := rfl

@[simp] theorem byteCount_cons (c : Char) (text : List Char) :
    byteCount (c :: text) = c.utf8Size + byteCount text := rfl

@[simp] theorem byteCount_append (s t : List Char) :
    byteCount (s ++ t) = byteCount s + byteCount t := by
  induction s with
  | nil => simp
  | cons c s ih => simp only [List.cons_append, byteCount_cons, ih]; omega

/-- Walks `offset` bytes on from line `line`, column `column`. A character that reaches beyond the
    offset is entered but not left, and past the end of the text the walk stands still. -/
def byteWalk (line column : Nat) : List Char → Nat → Position
  | [], _ => ⟨line, column⟩
  | c :: text, offset =>
    if offset < c.utf8Size then ⟨line, column + offset⟩
    else if c = '\n' then byteWalk (line + 1) 0 text (offset - c.utf8Size)
    else byteWalk line (column + c.utf8Size) text (offset - c.utf8Size)

/-- The place `offset` bytes into `text`; a text starts at line 1, column 0. -/
def Position.atByte (text : List Char) (offset : Nat) : Position :=
  byteWalk 1 0 text offset

end TypedFlags.Text
