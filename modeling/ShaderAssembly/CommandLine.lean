import ShaderAssembly.Archive.File
import ShaderAssembly.CommandLine.Arguments
import ShaderAssembly.Config.File
import ShaderAssembly.Translation
/-!
# The command line

* `CommandError`: why a command failed, with `message`;
* `Command.run`: carries out a command;
* `CommandLine.run`: carries out what the arguments ask for.
-/

namespace ShaderAssembly

/-- Why a command failed. -/
inductive CommandError where
  | config
  | unreadable (file : String)
  | noHeader (file : String)
  | refused (file : String) (place : Position) (reason : String)
  | failed (file : String) (phase : Phase) (reason : String)
  | unwritable (file : String)
  | noArchive (file : String)
  | archiveDisabled
deriving DecidableEq, Repr

namespace CommandError

/-- The text of a failure. -/
def message : CommandError → String
  | config => "failed to load configuration"
  | unreadable file => s!"failed to read {file}"
  | noHeader file => s!"{file}: no ARB program header found"
  | refused file place reason => s!"{file}:{place.line}:{place.column}: {reason}"
  | failed file phase reason => s!"{file}: {reason} ({phase.text})"
  | unwritable file => s!"failed to write {file}"
  | noArchive file => s!"{file}: not a readable shader archive"
  | archiveDisabled => "shader archive is disabled in the configuration"

/-- The failure to translate the text of a file, with its place in the text if it has one. -/
def ofTranslation (file source : String) (e : TranslationError) : CommandError :=
  match e.locator with
  | .offset byte => .refused file (locate source byte) e.diagnostic
  | .phase phase => .failed file phase e.diagnostic

end CommandError

/-- What became of a command line: a text, a failure of the command, or no command at all. -/
inductive Outcome where
  | done (output : String)
  | failed (e : CommandError)
  | misused
deriving DecidableEq, Repr

namespace Outcome

/-- The number with which the program ends. -/
def code : Outcome → Nat
  | done _ => 0
  | failed _ => 1
  | misused => 2

/-- What the program prints. -/
def output : Outcome → String
  | done output => output
  | _ => ""

/-- What the program complains about. -/
def complaint? : Outcome → Option String
  | failed e => some s!"Error: {e.message}"
  | _ => none

end Outcome

/-- How to call the program. -/
def usageText : String :=
  "\n".intercalate
    [s!"Usage: {programName} [--config PATH] COMMAND", "", "Commands:",
      "  translate FILE [--vertex | --fragment] [-o PATH]", "  psa-info [FILE]", ""]

/-- The name and version of the program. -/
def versionText : String := s!"{programName} 0.1.0\n"

section Run

variable {m : Type → Type} [Monad m] [FileStore m]

/-- Writes a shader to a directory under the name of the file that it comes from. Nothing happens
where that is impossible. -/
def dumpShader (directory file : String) (kind : ProgramKind) (text : String) : m Unit := do
  let stem := (FilePath.ofText file).stem?.getD "program"
  if ← FileStore.makeDirectory directory then
    let path := FilePath.join directory s!"{stem}.{kind.name}.glsl"
    discard (FileStore.write path (Bytes.ofText text))

/-- The shader for the program in a file. The signature tells the kind where none is given. -/
def translateFile (config : Config) (file : String) (kind : Option ProgramKind) :
    m (Except CommandError (ProgramKind × String)) := do
  match ← FileStore.readText? file with
  | none => return .error (.unreadable file)
  | some source =>
    match kind.or (Header.detectKind source) with
    | none => return .error (.noHeader file)
    | some kind =>
      match translate config.translator source kind with
      | .ok text => return .ok (kind, text)
      | .error e => return .error (.ofTranslation file source e)

/-- Puts a text into a file, or else prints it. -/
def deliver (output : Option String) (text : String) : m Outcome := do
  match output with
  | none => return .done text
  | some path =>
    if ← FileStore.write path (Bytes.ofText text) then return .done ""
    else return .failed (.unwritable path)

/-- How many binaries the archive in a file holds. -/
def archiveSummary (file : String) : m Outcome := do
  let (readable, archive) ← Archive.load file
  if readable then return .done s!"{file}: {archive.size} program binaries\n"
  else return .failed (.noArchive file)

/-- Carries out a command. -/
def Command.run (config : Config) : Command → m Outcome
  | .translate file kind output => do
    match ← translateFile config file kind with
    | .error e => return .failed e
    | .ok (kind, text) =>
      if config.debug.dumpShaders then dumpShader config.debug.dumpPath file kind text
      deliver output text
  | .describeArchive file =>
    match file.or config.cache.activeArchive? with
    | some file => archiveSummary file
    | none => return .failed .archiveDisabled

/-- Carries out a request with the configuration that it names, or else the user's. -/
def Request.run (folders : UserFolders) (r : Request) (library : Toml.Library := .builtIn) :
    m Outcome := do
  match ← (Config.standard folders).load (r.config.getD folders.configFile) library with
  | .error _ => return .failed .config
  | .ok config => r.command.run config

/-- Carries out what the arguments ask for. -/
def CommandLine.run (folders : UserFolders) (arguments : List String) : m Outcome :=
  match Request.ofArguments arguments with
  | .ok request => request.run folders
  | .error .help => return .done usageText
  | .error .version => return .done versionText
  | .error .misuse => return .misused

end Run

end ShaderAssembly
