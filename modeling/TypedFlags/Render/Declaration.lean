import TypedFlags.Schema.Basic
/-!
# Type declarations

The type of a schema's values, as a TypeScript type. The three numeric kinds are one type there; a
kind that is not recognized, and a schema without a main type, become `object`. A reference is
written as its name, so the declarations of the named types have to stand beside it.
-/

set_option autoImplicit false

namespace TypedFlags.Schema

/-- The type of what cannot be said more precisely. -/
def fallbackDeclaration : String := "object"

/-- The type of a primitive kind. -/
def Primitive.declaration : Primitive → String
  | .boolean => "boolean"
  | .integer | .float | .number => "number"
  | .string => "string"
  | .unrecognized => fallbackDeclaration

/-- A type, or that of arrays of it. -/
def declareArray (isArray : Bool) (type : String) : String :=
  if isArray then "Array<" ++ type ++ ">" else type

mutual

/-- The type of an object type. -/
def ObjectType.declaration : ObjectType → String
  | ⟨[], isArray⟩ => declareArray isArray "\x7b\x7d"
  | ⟨p :: ps, isArray⟩ =>
    declareArray isArray
      ("\x7b " ++ "; ".intercalate (p.declaration :: Property.declarations ps) ++ " \x7d")
termination_by structural type => type

/-- The entries of properties in an object type. -/
def Property.declarations : List Property → List String
  | [] => []
  | p :: ps => p.declaration :: Property.declarations ps
termination_by structural ps => ps

/-- The entry of a property in an object type. -/
def Property.declaration : Property → String
  | ⟨name, isOptional, isArray, type⟩ =>
    name ++ (if isOptional then "?" else "") ++ ": " ++ declareArray isArray type.declaration
termination_by structural p => p

/-- The type of what a property holds. -/
def PropertyType.declaration : PropertyType → String
  | .primitive kind => kind.declaration
  | .reference name => name
  | .object type => type.declaration
termination_by structural type => type

end

/-- The type of the main type. -/
def TypeSet.declaration (types : TypeSet) : String :=
  match types.main? with
  | some main => main.body.declaration
  | none => fallbackDeclaration

/-- The named types and their types, in order. -/
def TypeSet.namedDeclarations (types : TypeSet) : List (String × String) :=
  types.named.map fun decl => (decl.name, decl.body.declaration)

end TypedFlags.Schema
