import TypedFlags.Flag.Keyed
import TypedFlags.Render.Validator
import TypedFlags.Text.LetterCase
/-!
# Exported source

`Bundle.ofFlags` writes the source text for a group of flags with their keys: type declarations,
validators, and defaults. Flags come in code-point order of their keys, flags with one key in the
order given.

Each flag exports one type under its key in upper camel case. In front of it stand the named types of
its schema, except those whose name another schema has exported already: **the first declaration of
a name is the one that stays**. Only an object flag with a readable schema has a validator.
-/

set_option autoImplicit false

namespace TypedFlags

/-! ## Names for keys -/

/-- Whether a character separates the words of a key. -/
def isKeySeparator (c : Char) : Bool := c = '_' || c = '-' || c = '.'

/-- The words of a key run together, each with its first character in upper case. `atStart` says
    whether the text starts a word. -/
def capitalizeWords (atStart : Bool) : List Char → List Char
  | [] => []
  | c :: rest =>
    if isKeySeparator c then capitalizeWords true rest
    else (if atStart then Text.toUpper c else [c]) ++ capitalizeWords false rest

/-- A key in upper camel case. -/
def pascalCase (key : String) : String := String.ofList (capitalizeWords true key.toList)

/-- A key in lower camel case: the first character of the upper camel case in lower case. -/
def camelCase (key : String) : String :=
  match (pascalCase key).toList with
  | [] => ""
  | c :: rest => String.ofList (Text.toLower c ++ rest)

/-! ## Bundles -/

/-- The source text for a group of flags. -/
structure Bundle where
  declarations : String
  validators : String
  defaults : String
  deriving DecidableEq, Repr

namespace Bundle

/-- Flags in the order in which they are exported. -/
def inOrder (flags : List KeyedFlag) : List KeyedFlag :=
  flags.mergeSort fun a b => a.key ≤ b.key

/-- The named types of a flag's schema, with their declarations. -/
def namedTypes (flag : Flag) : List (String × String) :=
  match flag.schema? with
  | some (.ok types) => types.namedDeclarations
  | _ => []

/-- Of the given declarations, the first of each name that is not in `seen`. -/
def firsts (seen : List String) : List (String × String) → List (String × String)
  | [] => []
  | d :: ds => if d.1 ∈ seen then firsts seen ds else d :: firsts (d.1 :: seen) ds

/-- The types that flags export, with their declarations. `seen` are the named types that have been
    exported before. -/
def types (seen : List String) : List KeyedFlag → List (String × String)
  | [] => []
  | f :: fs =>
    let fresh := firsts seen (namedTypes f.flag)
    fresh ++ (pascalCase f.key, f.flag.typeLiteral) :: types (fresh.map (·.1) ++ seen) fs

/-- The validator of a flag, with its name. -/
def validator? (f : KeyedFlag) : Option (String × String) :=
  match f.flag.schema? with
  | some (.ok types) => some (camelCase f.key ++ "Schema", types.validator)
  | _ => none

/-- The text of an exported type. -/
def typeLine : String × String → String
  | (name, type) => "export type " ++ name ++ " = " ++ type ++ ";\n"

/-- The text of an exported validator. -/
def validatorLine : String × String → String
  | (name, expression) => "export const " ++ name ++ " = " ++ expression ++ ";\n"

/-- The text of the entry of a flag among the defaults. -/
def defaultLine (f : KeyedFlag) : String :=
  "  " ++ Flag.quote f.key ++ ": " ++ f.flag.defaultLiteral ++ ",\n"

/-- The files of a bundle: their names and texts, in the order in which they are written. -/
def files (b : Bundle) : List (String × String) :=
  [("flags.d.ts", b.declarations), ("flags.zod.ts", b.validators), ("defaults.ts", b.defaults)]

/-- The bundle of a group of flags. -/
def ofFlags (flags : List KeyedFlag) : Bundle :=
  let flags := inOrder flags
  { declarations := String.join ((types [] flags).map typeLine)
    validators :=
      "import \x7b z \x7d from \"zod\";\n\n" ++
        String.join ((flags.filterMap validator?).map validatorLine)
    defaults :=
      "export const defaults = \x7b\n" ++ String.join (flags.map defaultLine) ++ "\x7d;\n" }

end Bundle

end TypedFlags
