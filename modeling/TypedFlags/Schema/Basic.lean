/-!
# Schemas: type sets

A schema is a **type set**: a list of object types, of which the unnamed one is the main type that
values are held against and the others can be referred to by name. A type is an object with
properties, or (when its `isArray` flag is set) an array of such objects. Two array flags meet at a
property: the property's own, and that of an object type written in its place.

Nothing here asks a type set to be sensible. One that was read from schema text has unique names
(the grammar sees to it); one restored from storage may repeat names or lack a main type, so every
look-up is defined for all type sets and **takes the first match**.
-/

set_option autoImplicit false

namespace TypedFlags.Schema

/-- The primitive kinds of value. `unrecognized` stands for a kind that a newer writer stored and
    this library does not know; no schema text produces it. -/
inductive Primitive where
  | boolean
  | integer
  | float
  | number
  | string
  | unrecognized
  deriving DecidableEq, Repr

/-- The word for a kind, in schema text, in storage and in messages. -/
def Primitive.keyword : Primitive → String
  | .boolean => "boolean"
  | .integer => "integer"
  | .float => "float"
  | .number => "number"
  | .string => "string"
  | .unrecognized => "unrecognized"

/-- The kinds that schema text can name. -/
def Primitive.writable : List Primitive := [.boolean, .integer, .float, .number, .string]

/-- The kind with the given word, among those that schema text can name. -/
def Primitive.ofKeyword? (word : String) : Option Primitive :=
  writable.find? (·.keyword = word)

mutual

/-- What a property holds: a primitive, the type of a given name, or an object type in place. -/
inductive PropertyType where
  | primitive (kind : Primitive)
  | reference (name : String)
  | object (type : ObjectType)

/-- One property of an object type. With `isArray` it holds an array of its type. -/
structure Property where
  name : String
  isOptional : Bool
  isArray : Bool
  type : PropertyType

/-- An object type. With `isArray` it stands for arrays of such objects. -/
structure ObjectType where
  properties : List Property
  isArray : Bool

end

/-- How deep objects may be nested in schema text. -/
def maxNesting : Nat := 128

/-- An object type under a name; the empty name marks a main type. -/
structure TypeDecl where
  name : String
  body : ObjectType

/-- All types of one schema, in the order in which they were written. -/
structure TypeSet where
  types : List TypeDecl

/-! ## Equality -/

mutual

/-- Equality of property types is decidable. -/
def PropertyType.decEq : (a b : PropertyType) → Decidable (a = b)
  | .primitive j, .primitive k => decidable_of_iff (j = k) (by simp)
  | .reference m, .reference n => decidable_of_iff (m = n) (by simp)
  | .object s, .object t =>
    match ObjectType.decEq s t with
    | .isTrue h => .isTrue (by rw [h])
    | .isFalse h => .isFalse (by simpa using h)
  | .primitive _, .reference _ | .primitive _, .object _ | .reference _, .primitive _
  | .reference _, .object _ | .object _, .primitive _ | .object _, .reference _ =>
    .isFalse (by simp)

/-- Equality of properties is decidable. -/
def Property.decEq : (a b : Property) → Decidable (a = b)
  | ⟨m, o, a, s⟩, ⟨n, p, b, t⟩ =>
    match PropertyType.decEq s t with
    | .isTrue h => decidable_of_iff (m = n ∧ o = p ∧ a = b) (by simp [h])
    | .isFalse h => .isFalse (by simp [h])

/-- Equality of lists of properties is decidable. -/
def Property.decEqList : (a b : List Property) → Decidable (a = b)
  | [], [] => .isTrue rfl
  | [], _ :: _ | _ :: _, [] => .isFalse (by simp)
  | p :: ps, q :: qs =>
    match Property.decEq p q, Property.decEqList ps qs with
    | .isTrue h, .isTrue hs => .isTrue (by rw [h, hs])
    | .isFalse h, _ => .isFalse (by simp [h])
    | _, .isFalse hs => .isFalse (by simp [hs])

/-- Equality of object types is decidable. -/
def ObjectType.decEq : (a b : ObjectType) → Decidable (a = b)
  | ⟨ps, a⟩, ⟨qs, b⟩ =>
    match Property.decEqList ps qs with
    | .isTrue h => decidable_of_iff (a = b) (by simp [h])
    | .isFalse h => .isFalse (by simp [h])

end

instance : DecidableEq PropertyType := PropertyType.decEq
instance : DecidableEq Property := Property.decEq
instance : DecidableEq ObjectType := ObjectType.decEq

deriving instance DecidableEq for TypeDecl
deriving instance DecidableEq for TypeSet

/-! ## Look-ups -/

/-- Whether a type is a main type. -/
def TypeDecl.isMain (decl : TypeDecl) : Bool := decl.name = ""

/-- The property of the given name. -/
def ObjectType.property? (type : ObjectType) (name : String) : Option Property :=
  type.properties.find? (·.name = name)

/-- The main type. -/
def TypeSet.main? (types : TypeSet) : Option TypeDecl :=
  types.types.find? (·.isMain)

/-- The type that a reference means. The empty name means none: the main type cannot be referred
    to. -/
def TypeSet.resolve? (types : TypeSet) (name : String) : Option TypeDecl :=
  if name = "" then none else types.types.find? (·.name = name)

/-- The types that have a name, in order. -/
def TypeSet.named (types : TypeSet) : List TypeDecl :=
  types.types.filter (!·.isMain)

end TypedFlags.Schema
