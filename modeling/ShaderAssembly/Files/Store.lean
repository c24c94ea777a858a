import ShaderAssembly.Bytes
import ShaderAssembly.Files.Path
/-!
# File stores

What the program asks of the place where files are kept.

* `FileStore`: the questions;
* `FileStore.readText?`: a file as text;
* `FileStore.ensureParent`: makes the directory that is to hold a file.
-/

namespace ShaderAssembly

/-- A place where files are kept. Every question says whether it could be met. -/
class FileStore (m : Type → Type) where
  /-- Whether there is a file or directory under a path. -/
  isPresent : String → m Bool
  /-- The contents of a file. -/
  read? : String → m (Option Bytes)
  /-- Puts a file in a directory that is there, in place of a file of the same name. -/
  write : String → Bytes → m Bool
  /-- Makes a directory and those above it. -/
  makeDirectory : String → m Bool

namespace FileStore

variable {m : Type → Type} [Monad m] [FileStore m]

/-- The contents of a file, if they are a text. -/
def readText? (path : String) : m (Option String) := do
  return (← read? path).bind Bytes.text?

/-- Makes the directory that is to hold a file, if it is not there. -/
def ensureParent (path : String) : m Bool := do
  let parent := FilePath.parentText path
  if parent = "" then return true
  if ← isPresent parent then return true
  makeDirectory parent

end FileStore

end ShaderAssembly
