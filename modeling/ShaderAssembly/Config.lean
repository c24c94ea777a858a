import ShaderAssembly.Files.Path
import ShaderAssembly.Limits
/-!
# Configuration

* `UserFolders`: where a user's configurations and caches are kept;
* `LimitName`: the limits that can be overridden, by name;
* `Config`: all settings of the program;
* `Config.standard`: the settings of a user who made none.
-/

namespace ShaderAssembly

/-- The name of the program, under which its files are kept. -/
def programName : String := "glshim"

/-- The directories of a user's configurations and caches. -/
structure UserFolders where
  config : String
  cache : String
deriving DecidableEq, Repr

namespace UserFolders

/-- A directory that has to be given by a path from the root of all files. -/
def given? (path : Option String) : Option String :=
  path.filter fun p => (FilePath.ofText p).absolute

/-- The directories of a user: the ones given for either purpose, or else those below the home
directory, or else the current one. -/
def ofHome (home configHome cacheHome : Option String) : UserFolders :=
  let home := home.filter (· != "")
  let below (name : String) : Option String := home.map fun h => FilePath.join h name
  { config := ((given? configHome).or (below ".config")).getD "."
    cache := ((given? cacheHome).or (below ".cache")).getD "." }

/-- The place of the configuration file. -/
def configFile (f : UserFolders) : String :=
  FilePath.join (FilePath.join f.config programName) "config.toml"

/-- The place of the archive of compiled shaders. -/
def archiveFile (f : UserFolders) : String :=
  FilePath.join (FilePath.join f.cache programName) "shaders.psa"

end UserFolders

/-- The limits that can be overridden. -/
inductive LimitName where
  | instructions
  | temporaries
  | addressRegisters
  | envParams
  | localParams
  | textureUnits
  | textureCoords
deriving DecidableEq, Repr

namespace LimitName

/-- All of them, in the order in which they are written. -/
def all : List LimitName :=
  [instructions, temporaries, addressRegisters, envParams, localParams, textureUnits, textureCoords]

/-- The name under which a document gives a limit. -/
def key : LimitName → String
  | instructions => "max_instructions"
  | temporaries => "max_temporaries"
  | addressRegisters => "max_address_registers"
  | envParams => "max_env_params"
  | localParams => "max_local_params"
  | textureUnits => "max_texture_units"
  | textureCoords => "max_texture_coords"

end LimitName

namespace LimitOverrides

/-- The override of the limit of a name. -/
def get? (o : LimitOverrides) : LimitName → Option Nat
  | .instructions => o.maxInstructions
  | .temporaries => o.maxTemporaries
  | .addressRegisters => o.maxAddressRegisters
  | .envParams => o.maxEnvParams
  | .localParams => o.maxLocalParams
  | .textureUnits => o.maxTextureUnits
  | .textureCoords => o.maxTextureCoords

/-- The overrides with the one of a name replaced. -/
def set (o : LimitOverrides) (name : LimitName) (limit : Option Nat) : LimitOverrides :=
  match name with
  | .instructions => { o with maxInstructions := limit }
  | .temporaries => { o with maxTemporaries := limit }
  | .addressRegisters => { o with maxAddressRegisters := limit }
  | .envParams => { o with maxEnvParams := limit }
  | .localParams => { o with maxLocalParams := limit }
  | .textureUnits => { o with maxTextureUnits := limit }
  | .textureCoords => { o with maxTextureCoords := limit }

end LimitOverrides

/-- How much is told about what the program does. -/
inductive LogLevel where
  | off
  | error
  | warn
  | info
  | debug
  | trace
deriving DecidableEq, Repr, Inhabited

namespace LogLevel

/-- All levels, the quietest first. -/
def all : List LogLevel := [off, error, warn, info, debug, trace]

/-- The name of a level. -/
def name : LogLevel → String
  | off => "off"
  | error => "error"
  | warn => "warn"
  | info => "info"
  | debug => "debug"
  | trace => "trace"

end LogLevel

/-- Whether and where compiled shaders are kept. -/
structure CacheSettings where
  enabled : Bool := true
  archivePath : String
deriving DecidableEq, Repr

/-- The archive to use, if any. -/
def CacheSettings.activeArchive? (c : CacheSettings) : Option String :=
  if c.enabled then some c.archivePath else none

/-- How much is told, and whether and where every shader is written too. -/
structure DebugSettings where
  logLevel : LogLevel := .warn
  dumpShaders : Bool := false
  dumpPath : String := "glshim-dump"
deriving DecidableEq, Repr

/-- The settings of the program. -/
structure Config where
  translator : TranslatorSettings := {}
  cache : CacheSettings
  debug : DebugSettings := {}
deriving DecidableEq, Repr

/-- The settings of a user who made none. -/
def Config.standard (folders : UserFolders) : Config where
  cache := { archivePath := folders.archiveFile }

end ShaderAssembly
