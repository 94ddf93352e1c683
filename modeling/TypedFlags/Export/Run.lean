import TypedFlags.Configuration
import TypedFlags.Export.Files
import TypedFlags.Flag.Bundle
/-!
# Exporting a configuration

`run` is the whole of the program: it reads a configuration, checks its flags, and writes their
bundle to the output directory. **All flags are checked before anything is written**, and the report
of a failed check names every flag that is not in order.
-/

set_option autoImplicit false

namespace TypedFlags.Export

/-- Why nothing, or not everything, was exported. -/
inductive Failure where
  /-- The configuration cannot be read from its path. -/
  | unreadable (path : String) (fault : FileFault)
  /-- The configuration is none. What is wrong with its text is not kept. -/
  | unparsable
  /-- Some flags are not in order. -/
  | faulty (faults : List (KeyedFlag × Flag.Fault))
  /-- The output directory cannot be created. -/
  | uncreatable (directory : String) (fault : FileFault)
  /-- A file cannot be written. -/
  | unwritable (path : String) (fault : FileFault)
  deriving DecidableEq

/-- The exit code of a failure. -/
def Failure.code : Failure → UInt8
  | faulty _ => 65
  | uncreatable _ _ => 73
  | unwritable _ _ => 73
  | unreadable _ _ => 74
  | unparsable => 78

/-- The line about a flag that is not in order. A fault that comes from another is followed by it. -/
def faultLine : KeyedFlag × Flag.Fault → String
  | (f, fault) =>
    let cause := match fault.cause? with
      | some message => ": " ++ message
      | none => ""
    "flag `" ++ f.key ++ "` (" ++ f.flag.kind ++ "): " ++ fault.message ++ cause ++ "\n"

/-- What could not be done, and the fault that is the cause. -/
def attempt (deed : String) (fault : FileFault) : String :=
  deed ++ "\n\nCaused by:\n    " ++ fault.message ++ "\n"

/-- The report on a failure. Where the configuration is none, this is only how the report begins: the
    words of the parser behind the colon, and the line's end, are left out. -/
def Failure.report : Failure → String
  | unreadable path fault => "failed to read " ++ path ++ ": " ++ fault.message ++ "\n"
  | unparsable => "failed to parse configuration:"
  | faulty faults => "errors while checking flags\n" ++ String.join (faults.map faultLine)
  | uncreatable directory fault => attempt ("trying to create " ++ directory) fault
  | unwritable path fault => attempt ("trying to write " ++ path) fault

/-- The path of the configuration: the first argument, if there is one. -/
def configurationPath (args : List String) : String := args.head?.getD "flags.toml"

variable {m : Type → Type} [Monad m]

/-- Writes files into a folder that is there. -/
def writeFiles (fs : FileSystem m) (directory : String) :
    List (String × String) → ExceptT Failure m Unit
  | [] => return
  | (name, content) :: files => do
    (fs.write directory name content).adapt (.unwritable (filePath directory name))
    writeFiles fs directory files

/-- Exports what the configuration named by the arguments says. -/
def run (fs : FileSystem m) (args : List String) : ExceptT Failure m Unit := do
  let path := configurationPath args
  let text ← (fs.read path).adapt (.unreadable path)
  match Configuration.ofText? text with
  | none => throw .unparsable
  | some config =>
    match config.faults with
    | [] =>
      (fs.createFolders config.directory).adapt (.uncreatable config.directory)
      writeFiles fs config.directory (Bundle.ofFlags config.flags).files
    | faults => throw (.faulty faults)

/-- The exit code and the report of a run. -/
def outcome : Except Failure Unit → UInt8 × String
  | .ok () => (0, "")
  | .error failure => (failure.code, failure.report)

end TypedFlags.Export
