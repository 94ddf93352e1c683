import TypedFlags.Flag.Stored
/-!
# Flags with keys

A flag is known by its key. In storage the key is one more field of the flag's record, which is an
object then.
-/

set_option autoImplicit false

namespace TypedFlags

/-- A flag under its key. -/
structure KeyedFlag where
  key : String
  flag : Flag
  deriving DecidableEq

namespace KeyedFlag

/-- The flag that a record with a key stores. Its kind may be given by its number if `numbered`. -/
def ofJson? (numbered : Bool) : Json → Option KeyedFlag
  | .object members => do
    let key ← (Json.Field.required "key").value? members
    return ⟨← key.string?, ← Flag.ofJson? numbered (.object members)⟩
  | _ => none

/-- The flags that an array of records stores. -/
def listOfJson? (numbered : Bool) : Json → Option (List KeyedFlag)
  | .array items => items.mapM (ofJson? numbered)
  | _ => none

/-- The flags that a text stores; their kinds may be given by numbers. -/
def restoreList? (text : String) : Option (List KeyedFlag) :=
  (Json.read text).toOption.bind (listOfJson? true)

end KeyedFlag

end TypedFlags
