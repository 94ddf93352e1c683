/-!
# Replacing from left to right

A `Replacement` looks at the front of a text and may replace something there. `Replacement.apply`
runs it over a whole text: at each place either the front is replaced and the run goes on behind it,
or one character is kept and the run goes on one character later. What has been put in is not looked
at again.
-/

set_option autoImplicit false

namespace TypedFlags.Literal

/-- A replacement at the front of a text: what is put in, and the text behind what is taken out. At
    least one character is taken out. -/
structure Replacement where
  replace? : List Char → Option (List Char × List Char)
  shorter : ∀ {text out rest : List Char}, replace? text = some (out, rest) →
    rest.length < text.length

/-- Runs a replacement over a text. -/
def Replacement.apply (r : Replacement) (text : List Char) : List Char :=
  match text with
  | [] => []
  | c :: tail =>
    match _h : r.replace? (c :: tail) with
    | some (out, rest) => out ++ r.apply rest
    | none => c :: r.apply tail
termination_by text.length
decreasing_by
  · exact r.shorter _h
  · simp

end TypedFlags.Literal
