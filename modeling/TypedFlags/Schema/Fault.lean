import TypedFlags.Schema.Basic
import TypedFlags.Text.Position
/-!
# What can be wrong with schema text

A schema that cannot be read has one `Fault` at one place. The wording of a fault is fixed by
`Fault.detail`; the list of what was expected is worded in code-point order, so it does not depend
on the order in which the grammar considered its alternatives.
-/

set_option autoImplicit false

namespace TypedFlags.Schema

/-- What the grammar of schemas can ask for at a place. -/
inductive Expected where
  | typeKeyword
  | interfaceKeyword
  | leftBrace
  | rightBrace
  | arraySuffix
  | question
  | comma
  | colon
  | equals
  | identifier
  | primitiveType
  | endOfText
  deriving DecidableEq, Repr

/-- The name of an expectation in a message: literal tokens are quoted, classes of tokens not. -/
def Expected.name : Expected → String
  | typeKeyword => "`type`"
  | interfaceKeyword => "`interface`"
  | leftBrace => "`\x7b`"
  | rightBrace => "`\x7d`"
  | arraySuffix => "`[]`"
  | question => "`?`"
  | comma => "`,`"
  | colon => "`:`"
  | equals => "`=`"
  | identifier => "identifier"
  | primitiveType => "primitive type"
  | endOfText => "EOF"

/-- Why schema text is not a type set. -/
inductive Fault where
  /-- No token starts with this character. -/
  | unexpectedCharacter (c : Char)
  /-- An object is nested beyond the limit. -/
  | tooDeep
  /-- The next token, or the end of the text, is none of these. -/
  | unexpected (expected : List Expected)
  /-- An object repeats the name of a property. -/
  | duplicateProperty
  /-- Of several types, none or more than one is unnamed. -/
  | ambiguousMain
  /-- Two types share a name. -/
  | duplicateType
  deriving DecidableEq, Repr

/-- The wording of a fault, without its place. -/
def Fault.detail : Fault → String
  | unexpectedCharacter c => s!"unexpected character `{c}`"
  | tooDeep => s!"objects may not be nested more than {maxNesting} levels deep"
  | unexpected expected =>
    "expected one of: " ++ ", ".intercalate ((expected.map Expected.name).mergeSort)
  | duplicateProperty => "property names must be unique within an object"
  | ambiguousMain => "exactly one type must be unnamed"
  | duplicateType => "type names must be unique"

/-- A fault and where it is. -/
structure Error where
  fault : Fault
  position : Text.Position
  deriving DecidableEq, Repr

/-- The wording of a fault with its place. -/
def Error.message (e : Error) : String :=
  s!"{e.fault.detail} at line {e.position.line}, column {e.position.column}"

end TypedFlags.Schema
