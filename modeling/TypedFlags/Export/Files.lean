/-!
# File systems

What an export needs of a file system, apart from the way it is provided: the program runs on the one
of the machine, and `Export.Tree` is one that is a value.

`createFolders` creates a folder together with those above it that are missing. **A folder that is
there already is as good as one created.**
-/

set_option autoImplicit false

namespace TypedFlags.Export

/-- Why a file operation fails. -/
inductive FileFault where
  /-- Nothing has the path. -/
  | missing
  /-- Something has the path already. -/
  | taken
  /-- The path goes through a file. -/
  | notFolder
  /-- A folder has the path, where a file is wanted. -/
  | isFolder
  /-- The path is none, because of a NUL in it. -/
  | badPath
  /-- Something else that the file system has words for. -/
  | other (message : String)
  deriving DecidableEq, Repr

/-- The wording of a fault. -/
def FileFault.message : FileFault → String
  | missing => "No such file or directory (os error 2)"
  | taken => "File exists (os error 17)"
  | notFolder => "Not a directory (os error 20)"
  | isFolder => "Is a directory (os error 21)"
  | badPath => "file name contained an unexpected NUL byte"
  | other message => message

/-- The operations of a file system. -/
structure FileSystem (m : Type → Type) where
  /-- The content of the file at a path. -/
  read (path : String) : ExceptT FileFault m String
  /-- Whether a path leads to a folder. -/
  isFolder (path : String) : m Bool
  /-- Creates a folder in a folder that is there. -/
  createFolder (path : String) : ExceptT FileFault m Unit
  /-- Writes a file of the given name in a folder, in place of one that is there. -/
  write (folder name content : String) : ExceptT FileFault m Unit

/-! ## Paths -/

/-- What stands between the slashes of a text. -/
def betweenSlashes : List Char → List (List Char)
  | [] => [[]]
  | c :: text =>
    if c = '/' then [] :: betweenSlashes text
    else match betweenSlashes text with
      | [] => [[c]]
      | part :: parts => (c :: part) :: parts

/-- The parts of a path. A part may be empty: then it says as little as a single point. -/
def pathParts (path : String) : List String := (betweenSlashes path.toList).map String.ofList

/-- Whether a path starts at the root of the file system. -/
def isAbsolute (path : String) : Bool := path.startsWith "/"

/-- The path of a file in a folder. The empty path is that of the working directory. -/
def filePath (folder name : String) : String :=
  if folder.isEmpty || folder.endsWith "/" then folder ++ name else folder ++ "/" ++ name

/-- The beginnings of a path whose names are given from the last to the first, the longest first and
    without the whole path. -/
def beginnings : List String → List (List String)
  | [] => []
  | _ :: names => names.reverse :: beginnings names

/-- The paths of the folders above a path, the innermost first. -/
def ancestors (path : String) : List String :=
  let names := (pathParts path).filter fun part => part ≠ "" && part ≠ "."
  let root := if isAbsolute path then "/" else ""
  (beginnings names.reverse).map fun names => root ++ "/".intercalate names

/-! ## Creating folders -/

variable {m : Type → Type} [Monad m]

/-- Creates a folder, in a folder that is there, unless it is there itself. -/
def FileSystem.ensureFolder (fs : FileSystem m) (path : String) : ExceptT FileFault m Unit :=
  tryCatch (fs.createFolder path) fun fault => do
    if ← fs.isFolder path then return
    throw fault

/-- Creates a folder, and of those above it, the innermost first, as many as are missing. -/
def FileSystem.createFoldersAlong (fs : FileSystem m) (path : String) :
    (above : List String) → ExceptT FileFault m Unit
  | [] => if path.isEmpty then return else fs.ensureFolder path
  | parent :: rest =>
    if path.isEmpty then return
    else tryCatch (fs.ensureFolder path) fun fault =>
      if fault = .missing then do
        fs.createFoldersAlong parent rest
        fs.ensureFolder path
      else throw fault

/-- Creates a folder and those above it as far as they are missing. -/
def FileSystem.createFolders (fs : FileSystem m) (path : String) : ExceptT FileFault m Unit :=
  fs.createFoldersAlong path (ancestors path)

end TypedFlags.Export
