import ShaderAssembly.CommandLine
/-!
# The program

Files are those of the machine, and the user's directories come from the environment.
-/

namespace ShaderAssembly

/-- Whether an action succeeds. -/
def succeeds {α : Type} (action : IO α) : IO Bool := do
  try
    discard action
    return true
  catch _ => return false

instance : FileStore IO where
  isPresent path := succeeds (IO.FS.realPath path)
  read? path := do
    try return some (← IO.FS.readBinFile path).toList
    catch _ => return none
  write path data := succeeds (IO.FS.writeBinFile path ⟨data.toArray⟩)
  makeDirectory path := if path = "" then return true else succeeds (IO.FS.createDirAll path)

/-- The user's directories. -/
def userFolders : IO UserFolders := do
  return .ofHome (← IO.getEnv "HOME") (← IO.getEnv "XDG_CONFIG_HOME") (← IO.getEnv "XDG_CACHE_HOME")

end ShaderAssembly

open ShaderAssembly in
/-- Carries out the arguments, prints what there is to say, and ends with the number for it. -/
def main (arguments : List String) : IO UInt32 := do
  let outcome : Outcome ← CommandLine.run (← userFolders) arguments
  IO.print outcome.output
  if let some complaint := outcome.complaint? then IO.eprintln complaint
  if outcome = .misused then IO.eprint usageText
  return outcome.code.toUInt32
