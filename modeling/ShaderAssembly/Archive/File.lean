import ShaderAssembly.Archive.Format
import ShaderAssembly.Files.Store
/-!
# Archive files

* `Archive.reload`: the archive in the bytes of a file; a file that cannot be read leaves an empty
  one;
* `Archive.load`, `Archive.save`: an archive from a file, and to one. Each says whether it went
  well, and after either the archive counts as unchanged.
-/

namespace ShaderAssembly

namespace Archive

/-- The archive in the bytes of a file, and whether there is one. -/
def reload (file : Option Bytes) : Bool × Archive :=
  match file.map decodeEntries with
  | some (.ok entries) => (true, { entries })
  | _ => (false, .empty)

/-- The archive as it counts after an attempt to write it. -/
def settled (a : Archive) : Archive := { a with isDirty := false }

section Store

variable {m : Type → Type} [Monad m] [FileStore m]

/-- Reads the archive in a file. -/
def load (path : String) : m (Bool × Archive) := do
  return reload (← FileStore.read? path)

/-- Writes an archive to a file, in a directory that is made if it is missing. -/
def save (a : Archive) (path : String) : m (Bool × Archive) := do
  if ← FileStore.ensureParent path then
    return (← FileStore.write path a.encode, a.settled)
  else return (false, a.settled)

end Store

end Archive

end ShaderAssembly
