import TypedFlags.Schema.Basic
/-!
# Validator expressions

The check of a schema's values, as a Zod expression. It says less than the schema: a reference
accepts anything, and properties that are not declared are let through. Nothing is of a kind that is
not recognized.
-/

set_option autoImplicit false

namespace TypedFlags.Schema

/-- The expression for objects without declared properties. -/
def emptyValidator : String := "z.object(\x7b\x7d)"

/-- The expression for a primitive kind. -/
def Primitive.validator : Primitive → String
  | .boolean => "z.boolean()"
  | .integer => "z.number().int()"
  | .float | .number => "z.number()"
  | .string => "z.string()"
  | .unrecognized => "z.never()"

/-- An expression, or that for arrays of what it accepts. -/
def validateArray (isArray : Bool) (expression : String) : String :=
  if isArray then "z.array(" ++ expression ++ ")" else expression

mutual

/-- The expression for an object type. -/
def ObjectType.validator : ObjectType → String
  | ⟨[], isArray⟩ => validateArray isArray emptyValidator
  | ⟨p :: ps, isArray⟩ =>
    validateArray isArray
      ("z.object(\x7b " ++ ", ".intercalate (p.validator :: Property.validators ps) ++ " \x7d)")
termination_by structural type => type

/-- The entries of properties in an object expression. -/
def Property.validators : List Property → List String
  | [] => []
  | p :: ps => p.validator :: Property.validators ps
termination_by structural ps => ps

/-- The entry of a property in an object expression. -/
def Property.validator : Property → String
  | ⟨name, isOptional, isArray, type⟩ =>
    name ++ ": " ++ validateArray isArray type.validator ++
      (if isOptional then ".optional()" else "")
termination_by structural p => p

/-- The expression for what a property holds. -/
def PropertyType.validator : PropertyType → String
  | .primitive kind => kind.validator
  | .reference _ => "z.any()"
  | .object type => type.validator
termination_by structural type => type

end

/-- The expression for the main type. -/
def TypeSet.validator (types : TypeSet) : String :=
  match types.main? with
  | some main => main.body.validator
  | none => emptyValidator

end TypedFlags.Schema
