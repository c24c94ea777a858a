/-!
# Paths

A path is names with slashes between them. Empty names and single points stand for nothing.

* `FilePath.ofText`: the parts of a path;
* `FilePath.isUsable`, `FilePath.isUsableName`: what a system takes as a path, and as a name in one;
* `FilePath.name?`, `FilePath.stem?`: the last name, and the last name without its ending;
* `FilePath.parentText`: the path of the directory that holds a file.
-/

namespace ShaderAssembly

/-- A path: whether it starts at the root of all files, its names, and whether it can only denote a
directory. -/
structure FilePath where
  absolute : Bool
  names : List String
  isDirectory : Bool
deriving DecidableEq

/-- The parts of a text between slashes. -/
def splitSlashes : List Char → List (List Char)
  | [] => [[]]
  | c :: cs =>
    if c = '/' then [] :: splitSlashes cs
    else
      match splitSlashes cs with
      | part :: parts => (c :: part) :: parts
      | [] => [[c]]

namespace FilePath

/-- The most bytes in a name. -/
def maxNameBytes : Nat := 255

/-- The most bytes in the text of a path. -/
def maxBytes : Nat := 4095

/-- Whether a text can be asked for as a path: it is not empty, it is not too long, and no zero
character cuts it short. -/
def isUsable (text : String) : Bool :=
  text != "" && text.utf8ByteSize ≤ maxBytes && !text.toList.contains '\x00'

/-- Whether something can stand under a name. -/
def isUsableName (name : String) : Bool := name.utf8ByteSize ≤ maxNameBytes

/-- The path that a text denotes. -/
def ofText (text : String) : FilePath :=
  let parts := (splitSlashes text.toList).map String.ofList
  { absolute := text.toList.head? == some '/'
    names := parts.filter fun p => p != "" && p != "."
    isDirectory := parts.getLast? == some "" || parts.getLast? == some "." }

/-- The last name of a path, unless it goes up. -/
def name? (p : FilePath) : Option String :=
  match p.names.getLast? with
  | some name => if name = ".." then none else some name
  | none => none

/-- A name without what follows its last point; a point that opens the name does not count. -/
def stemOf (name : String) : String :=
  let cs := name.toList
  let before := (cs.reverse.dropWhile (· != '.')).drop 1
  if before.isEmpty then name else String.ofList before.reverse

/-- The last name of a path without its ending. -/
def stem? (p : FilePath) : Option String := p.name?.map stemOf

/-- The text of the path of the directory that holds a file; empty where that is the current one. -/
def parentText (text : String) : String :=
  let p := ofText text
  (if p.absolute then "/" else "") ++ "/".intercalate p.names.dropLast

/-- The text of the path of a file in a directory. -/
def join (directory file : String) : String :=
  if directory = "" || directory.toList.getLast? == some '/' then directory ++ file
  else directory ++ "/" ++ file

end FilePath

end ShaderAssembly
