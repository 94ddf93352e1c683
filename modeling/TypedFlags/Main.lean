import TypedFlags.Export.Run
/-!
# The program

Exports the flags of a configuration on the file system of the machine.
-/

set_option autoImplicit false

namespace TypedFlags.Export

/-- The number of an error of the operating system. Some operations give it with the sign changed. -/
def errorNumber (code : UInt32) : UInt32 := if code < 0x80000000 then code else 0 - code

/-- The fault that an error of the machine's file system is. -/
def FileFault.ofError : IO.Error → FileFault
  | .noFileOrDirectory .. => .missing
  | .alreadyExists .. => .taken
  | e@(.inappropriateType _ code _) =>
    if errorNumber code = 20 then .notFolder
    else if errorNumber code = 21 then .isFolder
    else .other e.toString
  | e => .other e.toString

/-- Runs an operation of the machine's file system on a path. -/
def guarded {α : Type} (path : String) (act : IO α) : ExceptT FileFault IO α :=
  ExceptT.mk do
    if '\x00' ∈ path.toList then return .error .badPath
    try
      return .ok (← act)
    catch e =>
      return .error (.ofError e)

/-- The file system of the machine. -/
def machine : FileSystem IO where
  read path := guarded path (IO.FS.readFile path)
  isFolder path := do
    try
      discard (IO.FS.realPath (filePath path "."))
      return true
    catch _ =>
      return false
  createFolder path := guarded path (IO.FS.createDir path)
  write folder name content :=
    guarded folder (IO.FS.writeFile (filePath folder name) content)

end TypedFlags.Export

open TypedFlags.Export in
/-- Exports the flags of the configuration that the arguments name. -/
def main (args : List String) : IO UInt32 := do
  let (code, report) := outcome (← (run machine args).run)
  (← IO.getStderr).putStr report
  return code.toUInt32
