import ShaderAssembly.Config.Format
import ShaderAssembly.Files.Store
import ShaderAssembly.Toml.Library
/-!
# Configuration files

* `Config.load`: the configuration in a file, which need not be there;
* `Config.save`: writes a configuration to a file.

Both work with any library for documents; the program uses the built-in one.
-/

namespace ShaderAssembly

/-- Why a configuration file gives no configuration: it is no text, or the text is not a document
with settings of the right kinds. -/
inductive ConfigError where
  | unreadable
  | malformed
deriving DecidableEq, Repr

namespace Config

variable {m : Type → Type} [Monad m] [FileStore m]

/-- The configuration in a file, or the standard one if there is no such file. -/
def load (standard : Config) (path : String) (library : Toml.Library := .builtIn) :
    m (Except ConfigError Config) := do
  if !(← FileStore.isPresent path) then return .ok standard
  match ← FileStore.readText? path with
  | none => return .error .unreadable
  | some text =>
    match standard.ofText? library text with
    | none => return .error .malformed
    | some config => return .ok config

/-- Writes a configuration to a file, in a directory that is made if it is missing, and says whether
that was possible. -/
def save (c : Config) (path : String) (library : Toml.Library := .builtIn) : m Bool := do
  if ← FileStore.ensureParent path then
    match c.toText? library with
    | none => return false
    | some text => FileStore.write path (Bytes.ofText text)
  else return false

end Config

end ShaderAssembly
