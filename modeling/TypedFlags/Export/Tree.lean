import TypedFlags.Export.Files
/-!
# File trees

A file tree is a file system that is a value: the files under a working directory and elsewhere with
their contents, and the folders that were created. A folder is there if it was created or something
is in it; the working directory and the folders above it always are.

Paths are followed part by part, and **every part but the last has to lead to a folder**.
-/

set_option autoImplicit false

namespace TypedFlags.Export

/-- A place in a file tree: names, from the last to the first, below the working directory, below a
    folder some levels above that, or below the root. -/
structure Place where
  levels : Option Nat
  names : List String
  deriving DecidableEq

namespace Place

/-- The working directory. -/
def workingDirectory : Place := ⟨some 0, []⟩

/-- The root. -/
def root : Place := ⟨none, []⟩

/-- The place that a part of a path leads to. -/
def enter (p : Place) (part : String) : Place :=
  if part = "" ∨ part = "." then p
  else if part = ".." then
    match p.names with
    | [] => ⟨p.levels.map (· + 1), []⟩
    | _ :: names => ⟨p.levels, names⟩
  else ⟨p.levels, part :: p.names⟩

/-- Whether a place is under another one. -/
def isUnder (p q : Place) : Bool :=
  p.levels = q.levels && q.names.isSuffixOf p.names && p.names ≠ q.names

/-- The path of a place from the working directory, if it is under that. -/
def path? (p : Place) : Option String :=
  if p.levels = some 0 then some ("/".intercalate p.names.reverse) else none

/-- The place that a path starts from. -/
def start (path : String) : Place := if isAbsolute path then root else workingDirectory

end Place

/-- The files of a tree, and the folders that were created in it. -/
structure Tree where
  files : List (Place × String)
  folders : List Place

/-- What a place holds. -/
inductive Tree.Node where
  | file (content : String)
  | folder
  deriving DecidableEq

namespace Tree

/-- The tree with the given files, each under its path from the working directory. -/
def ofFiles (files : List (String × String)) : Tree where
  files := files.map fun (path, content) =>
    ((pathParts path).foldl Place.enter .workingDirectory, content)
  folders := []

/-- The content of the file at a place. -/
def content? (t : Tree) (p : Place) : Option String := t.files.lookup p

/-- What is at a place. -/
def node? (t : Tree) (p : Place) : Option Node :=
  if p.names.isEmpty then some .folder
  else match t.content? p with
    | some content => some (.file content)
    | none =>
      if p ∈ t.folders ∨ t.files.any (·.1.isUnder p) then some .folder else none

/-- Follows parts of a path from a place. -/
def follow (t : Tree) (p : Place) : List String → Except FileFault Place
  | [] => .ok p
  | part :: rest =>
    match t.node? p with
    | some .folder => t.follow (p.enter part) rest
    | some (.file _) => .error .notFolder
    | none => .error .missing

/-- The place that a path leads to; nothing has to be there. -/
def locate (t : Tree) (path : String) (parts : List String) : Except FileFault Place :=
  if '\x00' ∈ path.toList then .error .badPath
  else t.follow (.start path) parts

/-- The place of the given path of something that is there. -/
def find (t : Tree) (path : String) : Except FileFault Place :=
  if path.isEmpty then .error .missing else t.locate path (pathParts path)

/-- The content of the file at a path. -/
def read (t : Tree) (path : String) : Except FileFault String := do
  match t.node? (← t.find path) with
  | some (.file content) => .ok content
  | some .folder => .error .isFolder
  | none => .error .missing

/-- Whether a path leads to a folder. -/
def isFolder (t : Tree) (path : String) : Bool :=
  match t.find path with
  | .ok p => t.node? p = some .folder
  | .error _ => false

/-- The tree with one more folder. Slashes at the end of its path do not count. -/
def createFolder (t : Tree) (path : String) : Except FileFault Tree := do
  let parts := ((pathParts path).reverse.dropWhile (· = "")).reverse
  let p ← t.locate path parts
  match t.node? p with
  | some _ => .error .taken
  | none => .ok ⟨t.files, p :: t.folders⟩

/-- The tree with the given content at a place. -/
def put (t : Tree) (p : Place) (content : String) : Tree :=
  ⟨(p, content) :: t.files.filter (·.1 ≠ p), t.folders⟩

/-- The tree with a file written in a folder. -/
def write (t : Tree) (folder name content : String) : Except FileFault Tree := do
  let p ← t.locate folder (pathParts folder ++ [name])
  match t.node? p with
  | some .folder => .error .isFolder
  | _ => .ok (t.put p content)

/-- The file system that a tree is. -/
def fileSystem : FileSystem (StateM Tree) where
  read path := fun t => (t.read path, t)
  isFolder path := fun t => (t.isFolder path, t)
  createFolder path := fun t =>
    match t.createFolder path with
    | .ok t => (.ok (), t)
    | .error fault => (.error fault, t)
  write folder name content := fun t =>
    match t.write folder name content with
    | .ok t => (.ok (), t)
    | .error fault => (.error fault, t)

/-- The files under the working directory that are not in an earlier tree as they are in this one,
    with their paths from there. -/
def changes (before after : Tree) : List (String × String) :=
  after.files.filterMap fun (p, content) =>
    if before.content? p = after.content? p then none
    else p.path?.map (·, content)

end Tree

end TypedFlags.Export
