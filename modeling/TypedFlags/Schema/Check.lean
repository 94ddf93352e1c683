import TypedFlags.Schema.Violation
import TypedFlags.Literal.Normal
/-!
# Holding a value against a schema

What a schema asks of a value at one place is a `Requirement`: a primitive kind, a record of
properties, a list of such, or a type that does not exist. References are followed one step when the
requirement is formed, never deeper, so a type set whose types refer to each other in circles is as
good as any other. **Every further step goes into the value**: `Schema.check` is defined by
recursion on it.

The first violation is reported. At a record the order is: the value is no object; it has a
property that is not declared (the first, in the value's order); then the declared properties in
their order, each missing or in violation itself. An array in place of an object is read as an
object whose keys are the indices of its items.
-/

set_option autoImplicit false

namespace TypedFlags.Schema

/-- Whether a value is of a primitive kind. Every number is a float; an integer may be written with
    a point or an exponent; nothing is of a kind that is not recognized. -/
def Primitive.admits : Primitive → Json → Bool
  | .boolean, .bool _ => true
  | .integer, .number n => n.isIntegral
  | .float, .number _ => true
  | .number, .number _ => true
  | .string, .string _ => true
  | _, _ => false

/-- What is asked of a value. -/
inductive Requirement where
  | primitive (kind : Primitive)
  | record (properties : List Property)
  | list (item : Requirement)
  | unresolved (name : String)

/-- A requirement, or that for a list of what meets it. -/
def Requirement.listIf (isArray : Bool) (r : Requirement) : Requirement :=
  if isArray then .list r else r

/-- What an object type asks for. -/
def ObjectType.requirement (type : ObjectType) : Requirement :=
  .listIf type.isArray (.record type.properties)

/-- What the type of a property asks for, its references resolved among `types`. -/
def PropertyType.requirement (types : TypeSet) : PropertyType → Requirement
  | .primitive kind => .primitive kind
  | .object type => type.requirement
  | .reference name =>
    match types.resolve? name with
    | some decl => decl.body.requirement
    | none => .unresolved name

/-- What a property asks for. -/
def Property.requirement (types : TypeSet) (p : Property) : Requirement :=
  .listIf p.isArray (p.type.requirement types)

/-- The first entry of a value whose name is not among the declared ones. -/
def undeclared? (properties : List Property) (entries : List (String × Json)) :
    Option (String × Json) :=
  entries.find? fun (name, _) => !properties.any (·.name = name)

/-- The entry of the given name. -/
def entryOf? (name : String) (entries : List (String × Json)) : Option (String × Json) :=
  entries.find? (·.1 = name)

theorem entryOf?_mem {name : String} {entries : List (String × Json)} {e : String × Json}
    (h : entryOf? name entries = some e) : e ∈ entries :=
  List.mem_of_find?_eq_some h

/-- Holds a value against a requirement and reports the first violation. -/
def check (types : TypeSet) (r : Requirement) (label : String) (v : Json) :
    Except Violation Unit :=
  match r, v with
  | .primitive kind, v => if kind.admits v then .ok () else .error (.notOfKind label kind)
  | .unresolved name, _ => .error (.unresolved name)
  | .list item, .array items => items.attach.forM fun ⟨v, _⟩ => check types item label v
  | .list _, _ => .error (.notArray label)
  | .record properties, v =>
    match _h : v.entries? with
    | none => .error (.notObject label)
    | some entries =>
      match undeclared? properties entries with
      | some (name, _) => .error (.extra name)
      | none =>
        properties.forM fun p =>
          match _he : entryOf? p.name entries with
          | some e => check types (p.requirement types) p.name e.2
          | none => if p.isOptional then .ok () else .error (.missing p.name)
termination_by sizeOf v
decreasing_by
  · exact Json.sizeOf_item_lt ‹_›
  · exact Json.sizeOf_entry_lt _h (entryOf?_mem _he)

/-- Holds a value against the main type of a schema. -/
def TypeSet.check (types : TypeSet) (v : Json) : Except Violation Unit :=
  match types.main? with
  | none => .error .noMainType
  | some main => Schema.check types main.body.requirement rootLabel v

/-- Holds the value that a literal writes against the main type of a schema. A schema without one is
    at fault before the literal is read. -/
def TypeSet.checkLiteral (types : TypeSet) (literal : String) : Except Violation Unit :=
  match types.main? with
  | none => .error .noMainType
  | some _ =>
    match Literal.read literal with
    | .error e => .error (.unreadable e)
    | .ok v => types.check v

end TypedFlags.Schema
