import TypedFlags.Text.Position
/-!
# What can be wrong with JSON text

A document that cannot be read has one `Json.Fault` at one place. While reading, the place is kept
as the number of bytes **behind** it (`Json.Stop`), so that no reader has to know how far into the
text it is. There are two kinds of place: the end of what has been consumed (`Stop.here`), and one
byte further, inside or behind the character that was looked at (`Stop.over`); at the end of the
text there is no byte further, and the two agree.
-/

set_option autoImplicit false

namespace TypedFlags.Json

/-- Why a text is not a JSON document. -/
inductive Fault where
  | expectedValue
  | expectedWord
  | expectedColon
  | expectedCommaOrBracket
  | expectedCommaOrBrace
  | keyNotString
  | trailingComma
  | trailingCharacters
  | tooDeep
  | invalidNumber
  | numberOutOfRange
  | invalidEscape
  | controlCharacter
  | loneSurrogate
  | unpairedSurrogate
  | endInValue
  | endInList
  | endInObject
  | endInString
  deriving DecidableEq, Repr

/-- The wording of a fault, without its place. -/
def Fault.detail : Fault → String
  | expectedValue => "expected value"
  | expectedWord => "expected ident"
  | expectedColon => "expected `:`"
  | expectedCommaOrBracket => "expected `,` or `]`"
  | expectedCommaOrBrace => "expected `,` or `\x7d`"
  | keyNotString => "key must be a string"
  | trailingComma => "trailing comma"
  | trailingCharacters => "trailing characters"
  | tooDeep => "recursion limit exceeded"
  | invalidNumber => "invalid number"
  | numberOutOfRange => "number out of range"
  | invalidEscape => "invalid escape"
  | controlCharacter => "control character (\\u0000-\\u001F) found while parsing a string"
  | loneSurrogate => "lone leading surrogate in hex escape"
  | unpairedSurrogate => "unexpected end of hex escape"
  | endInValue => "EOF while parsing a value"
  | endInList => "EOF while parsing a list"
  | endInObject => "EOF while parsing an object"
  | endInString => "EOF while parsing a string"

/-- A fault and the number of bytes behind its place. -/
structure Stop where
  fault : Fault
  unread : Nat
  deriving DecidableEq, Repr

/-- A fault at the end of what has been consumed; `rest` is what has not. -/
def Stop.here (fault : Fault) (rest : List Char) : Stop :=
  ⟨fault, Text.byteCount rest⟩

/-- A fault one byte into what has not been consumed. -/
def Stop.over (fault : Fault) (rest : List Char) : Stop :=
  ⟨fault, Text.byteCount rest - 1⟩

/-- A fault and where it is: a line, and a column in bytes. -/
structure Error where
  fault : Fault
  position : Text.Position
  deriving DecidableEq, Repr

/-- The wording of a fault with its place. -/
def Error.message (e : Error) : String :=
  s!"{e.fault.detail} at line {e.position.line} column {e.position.column}"

/-- The place of a fault in the text that was read. -/
def Stop.locate (text : List Char) (stop : Stop) : Error :=
  ⟨stop.fault, .atByte text (Text.byteCount text - stop.unread)⟩

end TypedFlags.Json
