import TypedFlags.Schema.Basic
import TypedFlags.Json.Fault
/-!
# What can be wrong with a value

A value that does not conform to a schema violates it in one of these ways. A violation names the
property it was found at; for the value itself that is `rootLabel`.
-/

set_option autoImplicit false

namespace TypedFlags.Schema

/-- The label of a value that is not under a property. -/
def rootLabel : String := "(root)"

/-- Why a value does not conform to a schema. -/
inductive Violation where
  /-- The schema has no main type. -/
  | noMainType
  /-- A value is not of the primitive kind asked for. -/
  | notOfKind (label : String) (kind : Primitive)
  /-- An object lacks a property that is not optional. -/
  | missing (name : String)
  /-- Something else stands where an array is asked for. -/
  | notArray (label : String)
  /-- Neither an object nor an array stands where an object is asked for. -/
  | notObject (label : String)
  /-- A property refers to a type that the schema does not have. -/
  | unresolved (name : String)
  /-- An object has a property that its type does not declare. -/
  | extra (name : String)
  /-- The literal that should write the value cannot be read. -/
  | unreadable (error : Json.Error)
  deriving DecidableEq, Repr

/-- The wording of a violation. -/
def Violation.message : Violation → String
  | noMainType => "schema does not declare an unnamed main type"
  | notOfKind label kind => s!"property `{label}` must be of type {kind.keyword}"
  | missing name => s!"missing required property `{name}`"
  | notArray label => s!"property `{label}` must be an array"
  | notObject label => s!"property `{label}` must be an object"
  | unresolved name => s!"type `{name}` is referenced but not declared"
  | extra name => s!"unexpected property `{name}`"
  | unreadable error => "failed to parse literal value: " ++ error.message

end TypedFlags.Schema
