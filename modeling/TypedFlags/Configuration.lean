import TypedFlags.Flag.Keyed
import TypedFlags.Toml.Document
/-!
# Configurations

A configuration is a TOML document with the flags of a group, under `flags`, and the directory that
their source text goes to, under `output`. Both may be absent: then there are no flags, and the
directory is `generated`.
-/

set_option autoImplicit false

namespace TypedFlags

/-- What a run is configured to export, and where to. -/
structure Configuration where
  directory : String
  flags : List KeyedFlag
  deriving DecidableEq

namespace Configuration

/-- The directory for source text if the configuration names none. -/
def defaultDirectory : String := "generated"

/-- The options for output that name a directory, as a record. -/
def optionsToJson (directory : String) : Json := .object [("directory", .string directory)]

/-- The directory that the options for output name. -/
def directoryOf? (options : Json) : Option String := do
  let [directory] ← options.required? ["directory"] | none
  directory.string?

/-- The fields of a configuration. -/
def fields : List Json.Field :=
  [.optional "output" (optionsToJson defaultDirectory), .optional "flags" (.array [])]

/-- The configuration that the entries of a document make. -/
def ofEntries? (entries : List (String × Json)) : Option Configuration := do
  let [options, flags] ← (Json.object entries).fields? fields | none
  return ⟨← directoryOf? options, ← KeyedFlag.listOfJson? false flags⟩

/-- The configuration that a text writes. -/
def ofText? (text : String) : Option Configuration := (Toml.entries? text).bind ofEntries?

/-- The flags that are not in order, with their faults, in the order of the configuration. -/
def faults (c : Configuration) : List (KeyedFlag × Flag.Fault) :=
  c.flags.filterMap fun f =>
    match f.flag.check with
    | .ok () => none
    | .error fault => some (f, fault)

end Configuration

end TypedFlags
