import TypedFlags.Json.Compact
import TypedFlags.Schema.Draft
import TypedFlags.Schema.Check
import TypedFlags.Render.Declaration
/-!
# Flags

A feature flag has one of seven kinds, each with a default. Object flags keep their schema and their
default as text; `Flag.check` says whether the schema can be read and the default conforms to it,
and for the kinds that declare values, whether the default is among them.

`Flag.typeLiteral` and `Flag.defaultLiteral` are the flag's type and default as source text.
Declared values are written in code-point order, each once, so the text does not depend on the order
in which they were declared.
-/

set_option autoImplicit false

namespace TypedFlags

open Schema (TypeSet)

/-- A feature flag. -/
inductive Flag where
  | boolean (value : Bool)
  | integer (value : Int64)
  | string (value : String)
  | object (schema value : String)
  | enum (values : List String) (value : String)
  | tag (values value : List String)
  | abTest (variants : List String) (value : String)
  deriving DecidableEq

/-- Why a flag is not in order. -/
inductive Flag.Fault where
  /-- The schema of an object flag cannot be read. -/
  | schema (error : Schema.Error)
  /-- The default of an object flag does not conform to its schema. -/
  | default (violation : Schema.Violation)
  /-- A default is not among the declared values. -/
  | unknownValue (value : String)
  /-- No values are declared. -/
  | noValues
  deriving DecidableEq, Repr

namespace Flag

/-- The message of the fault that a fault comes from, if it comes from another. -/
def Fault.cause? : Fault → Option String
  | schema error => some error.message
  | default violation => some violation.message
  | unknownValue _ => none
  | noValues => none

/-- The wording of a fault. -/
def Fault.message : Fault → String
  | schema error => "invalid schema: " ++ error.message
  | default violation => "default does not match schema: " ++ violation.message
  | unknownValue value => s!"`{value}` is not one of the declared values"
  | noValues => "flag declares no values"

/-- The name of a flag's kind. -/
def kind : Flag → String
  | boolean _ => "boolean"
  | integer _ => "integer"
  | string _ => "string"
  | object _ _ => "object"
  | enum _ _ => "enum"
  | tag _ _ => "tag"
  | abTest _ _ => "ab_test"

/-- The schema of an object flag, or the fault in its text. -/
def schema? : Flag → Option (Except Schema.Error TypeSet)
  | object schema _ => some (TypeSet.ofText schema)
  | _ => none

/-- Whether a default is among the declared values. -/
def checkMember (values : List String) (value : String) : Except Fault Unit :=
  if values = [] then .error .noValues
  else if value ∈ values then .ok ()
  else .error (.unknownValue value)

/-- Whether a flag is in order. A tag flag has to declare values even if it has no default. -/
def check : Flag → Except Fault Unit
  | boolean _ | integer _ | string _ => .ok ()
  | object schema value =>
    match TypeSet.ofText schema with
    | .error e => .error (.schema e)
    | .ok types => (types.checkLiteral value).mapError .default
  | enum values value => checkMember values value
  | abTest variants value => checkMember variants value
  | tag values value =>
    if values = [] then .error .noValues
    else value.forM (checkMember values)

/-! ## Source text -/

/-- A string as a source literal. -/
def quote (s : String) : String := Json.text (.string s)

/-- The alternatives among the given strings, in order and each once. -/
def union (values : List String) : String :=
  " | ".intercalate (values.mergeSort.eraseReps.map quote)

/-- The default as a source literal. That of an object flag is the value its text writes, or the
    text itself if that cannot be read. -/
def defaultLiteral : Flag → String
  | boolean value => toString value
  | integer value => toString value.toInt
  | string value => quote value
  | object _ value =>
    match Literal.read value with
    | .ok v => v.text
    | .error _ => value
  | enum _ value => quote value
  | abTest _ value => quote value
  | tag _ value => "[" ++ ", ".intercalate (value.mergeSort.map quote) ++ "]"

/-- The type as source text. -/
def typeLiteral : Flag → String
  | boolean _ => "boolean"
  | integer _ => "number"
  | string _ => "string"
  | object schema _ =>
    match TypeSet.ofText schema with
    | .ok types => types.declaration
    | .error _ => Schema.fallbackDeclaration
  | enum values _ => union values
  | abTest variants _ => union variants
  | tag values _ => "Array<" ++ union values ++ ">"

end Flag

end TypedFlags
