import TypedFlags.Schema.Fault
import TypedFlags.Schema.Token
/-!
# Drafts: type sets read so far

The grammar of schemas is read one token at a time. A `Draft` is everything that the tokens read so
far have said: the types that are complete, and, for the type being read, the objects that are
still open, each with its complete properties and the heading of the property that the next object
inside belongs to. `Draft.step` takes one token further, `Draft.finish` closes a draft at the end of
the text, and `TypeSet.ofTokens?` runs a whole list of tokens from the empty draft.

    types      := type+
    type       := ["type" identifier "=" | "interface" identifier] object
    object     := "{" [property ("," property)*] "}" ["[]"]
    property   := identifier ["?"] ":" (primitive | identifier | object) ["[]"]

**One token decides.** No two alternatives of this grammar start alike, except that a `[]` behind an
inline object could belong to the object or to the property; it is the object's, and a second one is
the property's. So a draft is never taken back, and the expectations at a place are a function of
the draft there (`Draft.expected`).

**An object is judged one token late.** Whether its property names are unique is asked when the
token behind it (and behind its `[]`) is seen, because that is the place at which a repeated name is
reported (`Draft.settle`). In the same way the names of the types are judged where no further type
follows.
-/

set_option autoImplicit false

namespace TypedFlags.Schema

/-- The name of a property whose type is still to come, and whether it was marked optional. -/
structure Heading where
  name : String
  isOptional : Bool
  deriving DecidableEq, Repr

/-- The property under a heading, not (yet) an array. -/
def Heading.property (heading : Heading) (type : PropertyType) : Property :=
  ⟨heading.name, heading.isOptional, false, type⟩

/-- An open object around the innermost one: its properties so far, and the heading under which the
    object inside it stands. -/
structure Enclosing where
  properties : List Property
  heading : Heading

/-- The place that has been reached in the innermost open object. -/
inductive Place where
  /-- Behind its `{`. -/
  | start
  /-- Behind a comma. -/
  | afterComma
  /-- Behind the name of a property. -/
  | afterName (name : String)
  /-- Behind the `?` of a property. -/
  | afterQuestion (name : String)
  /-- Behind the colon of a property. -/
  | afterColon (heading : Heading)
  /-- Behind the type of a property, where its `[]` may still come. -/
  | afterType (property : Property)
  /-- Behind a property that is complete. -/
  | afterProperty
  /-- Behind the object's `}`, and behind its `[]` if `isArray`. -/
  | afterBrace (isArray : Bool)

/-- The place that has been reached in the list of types. -/
inductive Stage where
  /-- Before a type, or behind the last. -/
  | between
  /-- Behind `type`. -/
  | afterType
  /-- Behind `type` and a name. -/
  | afterTypeName (name : String)
  /-- Behind `interface`. -/
  | afterInterface
  /-- Before the object of the type of the given name. -/
  | body (name : String)
  /-- In the object of the type of the given name: the objects around the innermost open one from
      the inside out, and the properties of the innermost. -/
  | inside (name : String) (outer : List Enclosing) (properties : List Property) (place : Place)

/-- What has been read of a type set. -/
structure Draft where
  types : List TypeDecl
  stage : Stage

/-- Whether no two properties share a name. -/
def uniqueProperties (properties : List Property) : Bool :=
  decide (properties.map (·.name)).Nodup

/-- What is wrong with the names of a list of types: of two or more, exactly one is unnamed and no
    two share a name. A single type may be named. -/
def typeNamesFault? (types : List TypeDecl) : Option Fault :=
  if types.length < 2 then none
  else if (types.filter (·.isMain)).length ≠ 1 then some .ambiguousMain
  else if ((types.filter (!·.isMain)).map (·.name)).Nodup then none
  else some .duplicateType

namespace Draft

/-- Nothing has been read. -/
def empty : Draft := ⟨[], .between⟩

/-- Everything that may come next. The end of the text may come where a type may, once there is
    one. -/
def expected (d : Draft) : List Expected :=
  match d.stage with
  | .between =>
    match d.types with
    | [] => [.typeKeyword, .interfaceKeyword, .leftBrace]
    | _ :: _ => [.typeKeyword, .interfaceKeyword, .leftBrace, .endOfText]
  | .afterType => [.identifier]
  | .afterTypeName _ => [.equals]
  | .afterInterface => [.identifier]
  | .body _ => [.leftBrace]
  | .inside _ outer _ place =>
    match place with
    | .start => [.identifier, .rightBrace]
    | .afterComma => [.identifier]
    | .afterName _ => [.question, .colon]
    | .afterQuestion _ => [.colon]
    | .afterColon _ => [.primitiveType, .identifier, .leftBrace]
    | .afterType _ => [.arraySuffix, .comma, .rightBrace]
    | .afterProperty => [.comma, .rightBrace]
    | .afterBrace isArray =>
      match outer with
      | _ :: _ => [.arraySuffix, .comma, .rightBrace]
      | [] =>
        if isArray then [.typeKeyword, .interfaceKeyword, .leftBrace, .endOfText]
        else [.arraySuffix, .typeKeyword, .interfaceKeyword, .leftBrace, .endOfText]

/-- The draft with one more token, if the token can stand at the place reached. -/
def advance? (d : Draft) (t : Token) : Option Draft :=
  match d.stage, t with
  | .between, .typeKeyword => some { d with stage := .afterType }
  | .between, .interfaceKeyword => some { d with stage := .afterInterface }
  | .between, .leftBrace => some { d with stage := .inside "" [] [] .start }
  | .afterType, .identifier n => some { d with stage := .afterTypeName n }
  | .afterTypeName n, .equals => some { d with stage := .body n }
  | .afterInterface, .identifier n => some { d with stage := .body n }
  | .body n, .leftBrace => some { d with stage := .inside n [] [] .start }
  | .inside n outer ps place, t =>
    let go outer ps place := some { d with stage := .inside n outer ps place }
    match place, t with
    | .start, .identifier p => go outer ps (.afterName p)
    | .start, .rightBrace => go outer ps (.afterBrace false)
    | .afterComma, .identifier p => go outer ps (.afterName p)
    | .afterName p, .question => go outer ps (.afterQuestion p)
    | .afterName p, .colon => go outer ps (.afterColon ⟨p, false⟩)
    | .afterQuestion p, .colon => go outer ps (.afterColon ⟨p, true⟩)
    | .afterColon h, .primitive k => go outer ps (.afterType (h.property (.primitive k)))
    | .afterColon h, .identifier r => go outer ps (.afterType (h.property (.reference r)))
    | .afterColon h, .leftBrace => go (⟨ps, h⟩ :: outer) [] .start
    | .afterType p, .arraySuffix => go outer (ps ++ [{ p with isArray := true }]) .afterProperty
    | .afterType p, .comma => go outer (ps ++ [p]) .afterComma
    | .afterType p, .rightBrace => go outer (ps ++ [p]) (.afterBrace false)
    | .afterProperty, .comma => go outer ps .afterComma
    | .afterProperty, .rightBrace => go outer ps (.afterBrace false)
    | .afterBrace false, .arraySuffix => go outer ps (.afterBrace true)
    | _, _ => none
  | _, _ => none

/-- Judges an object whose brace has been closed and puts it where it belongs: as the type of the
    property it stands under, or as the body of the type being read. A draft without such an object
    stays as it is. -/
def settle (d : Draft) : Except Fault Draft :=
  match d.stage with
  | .inside n outer ps (.afterBrace isArray) =>
    if uniqueProperties ps then
      match outer with
      | [] => .ok ⟨d.types ++ [⟨n, ⟨ps, isArray⟩⟩], .between⟩
      | o :: outer =>
        let property := o.heading.property (.object ⟨ps, isArray⟩)
        .ok { d with stage := .inside n outer o.properties (.afterType property) }
    else .error .duplicateProperty
  | _ => .ok d

/-- Why nothing can be read on from a settled draft: the type list may end here but its names are
    faulty, or else none of the expected tokens stands here. -/
def refusal (d : Draft) (expected : List Expected) : Fault :=
  match d.stage with
  | .between => (typeNamesFault? d.types).getD (.unexpected expected)
  | _ => .unexpected expected

/-- Reads one token. -/
def step (d : Draft) (t : Token) : Except Fault Draft :=
  match d.advance? t with
  | some next => .ok next
  | none => do
    let settled ← d.settle
    match settled.advance? t with
    | some next => .ok next
    | none => .error (settled.refusal d.expected)

/-- Closes a draft at the end of the text. -/
def finish (d : Draft) : Except Fault TypeSet := do
  let settled ← d.settle
  match settled.stage, settled.types with
  | .between, _ :: _ =>
    match typeNamesFault? settled.types with
    | some fault => .error fault
    | none => .ok ⟨settled.types⟩
  | _, _ => .error (.unexpected d.expected)

/-- Reads all tokens. A fault comes with the number of tokens from its place on. -/
def run (d : Draft) : List Token → Except (Fault × Nat) TypeSet
  | [] => d.finish.mapError (·, 0)
  | t :: ts =>
    match d.step t with
    | .ok next => next.run ts
    | .error fault => .error (fault, ts.length + 1)

end Draft

/-- The type set that a list of tokens writes, or the fault in it with the number of tokens from
    the fault's place on (none at the end of the text). -/
def TypeSet.ofTokens (tokens : List Token) : Except (Fault × Nat) TypeSet :=
  Draft.empty.run tokens

/-- The place at which `unread` of the lexemes of `text` are still to come. -/
def placeOf (text : List Char) (ls : List Lexeme) (unread : Nat) : Text.Position :=
  match ls[ls.length - unread]? with
  | some l => .atOffset text l.offset
  | none => .after text

/-- The type set that a text writes. The whole text is cut into tokens and its nesting is checked
    before the grammar is applied, so those faults come first wherever they stand. -/
def TypeSet.ofText (text : String) : Except Error TypeSet :=
  let chars := text.toList
  match lexemes chars 0 with
  | .error (c, offset) => .error ⟨.unexpectedCharacter c, .atOffset chars offset⟩
  | .ok ls =>
    match tooDeep? 0 ls with
    | some offset => .error ⟨.tooDeep, .atOffset chars offset⟩
    | none =>
      (TypeSet.ofTokens (ls.map (·.token))).mapError fun (fault, unread) =>
        ⟨fault, placeOf chars ls unread⟩

end TypedFlags.Schema
