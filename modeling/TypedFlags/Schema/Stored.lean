import TypedFlags.Schema.Basic
import TypedFlags.Json.Compact
import TypedFlags.Json.Reader
import TypedFlags.Json.Record
/-!
# Stored type sets

A type set is stored as JSON: an array with a record for each type. What a property holds is a record
of one of three kinds.

Restoring asks for the form and for nothing else: none of the rules that the grammar of schema text
enforces is checked. A type without a name is a main type, and a primitive kind of an unknown name
is kept as `unrecognized`.

Only the fields of types, of their objects and of those objects' properties are looked at
(`TypeSet.outline`), whereas what a property holds is read whole. Inside it a kind may be given by
its number.
-/

set_option autoImplicit false

namespace TypedFlags.Schema

/-! ## Storing -/

mutual

/-- An object type as a record. -/
def ObjectType.toJson : ObjectType → Json
  | ⟨properties, isArray⟩ =>
    .object [("properties", .array (Property.listToJson properties)), ("isArray", .bool isArray)]
termination_by structural type => type

/-- Properties as records. -/
def Property.listToJson : List Property → List Json
  | [] => []
  | p :: ps => p.toJson :: Property.listToJson ps
termination_by structural ps => ps

/-- A property as a record. -/
def Property.toJson : Property → Json
  | ⟨name, isOptional, isArray, type⟩ =>
    .object [("propertyName", .string name), ("isOptional", .bool isOptional),
      ("isArray", .bool isArray), ("propertyType", type.toJson)]
termination_by structural p => p

/-- What a property holds, as a record. -/
def PropertyType.toJson : PropertyType → Json
  | .primitive kind =>
    .object [("kind", .string "primitive"), ("primitive", .string kind.keyword)]
  | .reference name => .object [("kind", .string "identifier"), ("name", .string name)]
  | .object type => .object [("kind", .string "object"), ("object", type.toJson)]
termination_by structural type => type

end

/-- A type as a record. -/
def TypeDecl.toJson (decl : TypeDecl) : Json :=
  .object [("name", .string decl.name), ("object", decl.body.toJson)]

/-- A type set as an array of records. -/
def TypeSet.toJson (types : TypeSet) : Json := .array (types.types.map (·.toJson))

/-- The stored text of a type set. -/
def TypeSet.stored (types : TypeSet) : String := types.toJson.text

/-! ## Restoring -/

/-- The primitive kind of a name; names that are not known are one kind. -/
def Primitive.ofName (name : String) : Primitive :=
  (Primitive.ofKeyword? name).getD .unrecognized

/-- The primitive kind that a value stores: its name, or an object with nothing under that name. -/
def Primitive.ofJson? : Json → Option Primitive
  | .string name | .object [(name, .null)] | .object [(name, .object [])] => some (.ofName name)
  | _ => none

/-- The kinds of what a property holds. -/
def PropertyType.kinds : List String := ["primitive", "identifier", "object"]

mutual

/-- The object type that a record stores. -/
def ObjectType.ofJson? (numbered : Bool) (v : Json) : Option ObjectType :=
  match _h : v.required? ["properties", "isArray"] with
  | some [.array items, isArray] => do
    let properties ← items.attach.mapM fun ⟨item, _⟩ => Property.ofJson? numbered item
    some ⟨properties, ← isArray.bool?⟩
  | _ => none
termination_by sizeOf v
decreasing_by
  exact Nat.lt_trans (Json.sizeOf_item_lt ‹_›) (Json.sizeOf_required_lt _h (by simp))

/-- The property that a record stores. -/
def Property.ofJson? (numbered : Bool) (v : Json) : Option Property :=
  match _h : v.required? ["propertyName", "isOptional", "isArray", "propertyType"] with
  | some [name, isOptional, isArray, type] => do
    let type ← PropertyType.ofJson? numbered type
    some ⟨← name.string?, ← isOptional.bool?, ← isArray.bool?, type⟩
  | _ => none
termination_by sizeOf v
decreasing_by
  exact Json.sizeOf_required_lt _h (by simp)

/-- What a property holds, as a record stores it. Its own kind may be given by its number if
    `numbered`; the kinds inside it may in any case. -/
def PropertyType.ofJson? (numbered : Bool) (v : Json) : Option PropertyType :=
  match _h : v.kinded? PropertyType.kinds numbered with
  | some ("primitive", record) => do
    let [kind] ← record.required? ["primitive"] | none
    some (.primitive (← Primitive.ofJson? kind))
  | some ("identifier", record) => do
    let [name] ← record.required? ["name"] | none
    some (.reference (← name.string?))
  | some ("object", record) =>
    match _hr : record.required? ["object"] with
    | some [type] => do
      let type ← ObjectType.ofJson? true type
      some (.object type)
    | _ => none
  | _ => none
termination_by sizeOf v
decreasing_by
  exact Nat.lt_of_lt_of_le (Json.sizeOf_required_lt _hr (by simp)) (Json.sizeOf_kinded_le _h)

end

/-- The type that a record stores. -/
def TypeDecl.ofJson? (v : Json) : Option TypeDecl := do
  let [name, body] ← v.fields? [.optional "name" (.string ""), .required "object"] | none
  some ⟨← name.string?, ← ObjectType.ofJson? false body⟩

/-- The type set that an array of records stores. -/
def TypeSet.ofJson? : Json → Option TypeSet
  | .array items => (items.mapM TypeDecl.ofJson?).map (⟨·⟩)
  | _ => none

/-- The fields of a stored type set down to what properties hold: those of types and of their
    objects, and, in an array, those of properties. -/
def TypeSet.outline : Json.Outline :=
  [[], ["name", "object"], ["properties", "isArray"], [],
    ["propertyName", "isOptional", "isArray", "propertyType"]]

/-- The type set that a text stores. -/
def TypeSet.restore? (text : String) : Option TypeSet :=
  (Json.readOutline outline text).toOption.bind TypeSet.ofJson?

end TypedFlags.Schema
