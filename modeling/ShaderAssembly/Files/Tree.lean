import ShaderAssembly.Files.Store
import ShaderAssembly.SortedMap
/-!
# File trees

All the files of a system, as a value, with the directory where relative paths start.

* `FileTree.fresh`: a system whose working directory is empty;
* `FileTree.resolve?`: the place that a path denotes;
* `FileTree.read?`, `FileTree.write?`, `FileTree.makeDirectory`: access to it;
* `FileTree.changes`: the files of the working directory that differ from those of an earlier tree.
-/

namespace ShaderAssembly

/-- What stands at a place of a tree. A device holds nothing, and takes whatever is written to it or
refuses it. -/
inductive FileNode where
  | directory
  | file (data : Bytes)
  | device (accepts : Bool)
deriving DecidableEq

/-- What stands at each place, given by the names that lead to it from the root of all files, and
the place of the working directory. -/
structure FileTree where
  nodes : SortedMap (List String) FileNode := .empty
  workplace : List String := []
deriving DecidableEq

namespace FileTree

/-! ## Places -/

/-- What stands at a place. -/
def node? (t : FileTree) : List String → Option FileNode
  | [] => some .directory
  | place => t.nodes.get? place

/-- The tree with something else at a place. -/
def put (t : FileTree) (place : List String) (node : FileNode) : FileTree :=
  { t with nodes := t.nodes.insert place node }

/-- The directories that every system has at its root. -/
def standardDirectories : List String :=
  ["bin", "dev", "etc", "home", "lib", "opt", "proc", "root", "run", "sbin", "sys", "tmp", "usr",
    "var"]

/-- A system with an empty working directory, where nothing but the standard directories and two
devices is known of the rest. -/
def fresh : FileTree where
  nodes := .ofList <|
    (standardDirectories.map fun name => ([name], .directory)) ++
      [(["dev", "null"], .device true), (["dev", "full"], .device false),
        (["tmp", "work"], .directory)]
  workplace := ["tmp", "work"]

/-- The place that `names` lead to from `place`, on which every name but the last denotes a
directory. Nothing is above the root. -/
def walk? (t : FileTree) (place : List String) : List String → Option (List String)
  | [] => some place
  | name :: names =>
    match t.node? place with
    | some .directory =>
      if name = ".." then t.walk? place.dropLast names
      else if FilePath.isUsableName name then t.walk? (place ++ [name]) names
      else none
    | _ => none

/-- The place where a path starts. -/
def origin (t : FileTree) (p : FilePath) : List String := if p.absolute then [] else t.workplace

/-- The place that a path denotes, whether or not anything stands there. -/
def resolve? (t : FileTree) (path : String) : Option (List String) :=
  let p := FilePath.ofText path
  if FilePath.isUsable path then t.walk? (t.origin p) p.names else none

/-- What stands at a path; nothing but a directory does where the path says so. -/
def nodeAt? (t : FileTree) (path : String) : Option FileNode :=
  match (t.resolve? path).bind t.node? with
  | some .directory => some .directory
  | some node => if (FilePath.ofText path).isDirectory then none else some node
  | none => none

/-! ## Access -/

/-- The contents of a file. -/
def read? (t : FileTree) (path : String) : Option Bytes :=
  match t.nodeAt? path with
  | some (.file data) => some data
  | some (.device _) => some []
  | _ => none

/-- The tree with a file at a path, unless a directory stands there or the directory around it is
missing. A device stays what it is. -/
def write? (t : FileTree) (path : String) (data : Bytes) : Option FileTree :=
  match t.resolve? path with
  | none => none
  | some place =>
    if (FilePath.ofText path).isDirectory then none
    else
      match t.node? place with
      | some .directory => none
      | some (.device accepts) => if accepts then some t else none
      | _ => some (t.put place (.file data))

/-- The tree with directories along `names` from `place` on, and whether all of them are there: a
file in the way, or a name under which nothing can stand, ends the work. -/
def makeAlong (t : FileTree) (place : List String) : List String → Bool × FileTree
  | [] => (true, t)
  | name :: names =>
    if name = ".." then t.makeAlong place.dropLast names
    else if FilePath.isUsableName name then
      let place := place ++ [name]
      match t.node? place with
      | some .directory => t.makeAlong place names
      | some _ => (false, t)
      | none => (t.put place .directory).makeAlong place names
    else (false, t)

/-- The tree with a directory at a path and those above it, and whether they are there. The empty
path asks for none. -/
def makeDirectory (t : FileTree) (path : String) : Bool × FileTree :=
  let p := FilePath.ofText path
  if path = "" then (true, t)
  else if FilePath.isUsable path then t.makeAlong (t.origin p) p.names
  else (false, t)

/-! ## The working directory -/

/-- The files in the working directory and below, by their paths. -/
def files (t : FileTree) : List (String × Bytes) :=
  t.nodes.toList.filterMap fun (place, node) =>
    match t.workplace.isPrefixOf? place, node with
    | some names, .file data => some ("/".intercalate names, data)
    | _, _ => none

/-- The files that were not in an earlier tree, or not with these contents. -/
def changes (before after : FileTree) : List (String × Bytes) :=
  after.files.filter fun file => !before.files.contains file

instance : FileStore (StateM FileTree) where
  isPresent path := return ((← get).nodeAt? path).isSome
  read? path := return (← get).read? path
  write path data := do
    match (← get).write? path data with
    | some t =>
      set t
      return true
    | none => return false
  makeDirectory path := modifyGet (·.makeDirectory path)

end FileTree

end ShaderAssembly
