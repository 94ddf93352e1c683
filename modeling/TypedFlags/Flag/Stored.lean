import TypedFlags.Flag.Basic
import TypedFlags.Json.Record
/-!
# Stored flags

A flag is stored as a JSON record of one of the seven kinds. The default of a tag flag may be left
out, which means no tags; every other field has to be there.
-/

set_option autoImplicit false

namespace TypedFlags.Flag

/-- An integer of 64 bits as a number. -/
def integerToJson (n : Int64) : Json :=
  .number (.integer n.toInt ⟨n.le_toInt, by have := n.toInt_lt; omega⟩)

/-- Strings as an array. -/
def stringsToJson (values : List String) : Json := .array (values.map .string)

/-- The fields of a flag other than its kind. -/
def fields : Flag → List (String × Json)
  | boolean value => [("default", .bool value)]
  | integer value => [("default", integerToJson value)]
  | string value => [("default", .string value)]
  | object schema value => [("schema", .string schema), ("default", .string value)]
  | enum values value => [("values", stringsToJson values), ("default", .string value)]
  | tag values value => [("values", stringsToJson values), ("default", stringsToJson value)]
  | abTest variants value => [("variants", stringsToJson variants), ("default", .string value)]

/-- A flag as a record. -/
def toJson (flag : Flag) : Json := .object (("kind", .string flag.kind) :: flag.fields)

/-- The stored text of a flag. -/
def stored (flag : Flag) : String := flag.toJson.text

/-- A number that was written as an integer and fits 64 bits with a sign. -/
def integer? : Json → Option Int64
  | .number (.integer n _) => if n < 0x8000000000000000 then some (Int64.ofInt n) else none
  | _ => none

/-- The kinds of flags. -/
def kinds : List String := ["boolean", "integer", "string", "object", "enum", "tag", "ab_test"]

/-- The flag that a record stores. Its kind may be given by its number if `numbered`. -/
def ofJson? (numbered : Bool) (v : Json) : Option Flag := do
  let (kind, record) ← v.kinded? kinds numbered
  match kind with
  | "boolean" => do
    let [value] ← record.required? ["default"] | none
    return boolean (← value.bool?)
  | "integer" => do
    let [value] ← record.required? ["default"] | none
    return integer (← integer? value)
  | "string" => do
    let [value] ← record.required? ["default"] | none
    return string (← value.string?)
  | "object" => do
    let [schema, value] ← record.required? ["schema", "default"] | none
    return object (← schema.string?) (← value.string?)
  | "enum" => do
    let [values, value] ← record.required? ["values", "default"] | none
    return enum (← values.strings?) (← value.string?)
  | "tag" => do
    let [values, value] ←
      record.fields? [.required "values", .optional "default" (.array [])] | none
    return tag (← values.strings?) (← value.strings?)
  | "ab_test" => do
    let [variants, value] ← record.required? ["variants", "default"] | none
    return abTest (← variants.strings?) (← value.string?)
  | _ => none

/-- The flag that a text stores. -/
def restore? (text : String) : Option Flag :=
  (Json.read text).toOption.bind (ofJson? false)

end TypedFlags.Flag
