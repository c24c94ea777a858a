import ShaderAssembly.Archive.Format
import ShaderAssembly.Diagnostic
/-!
# Failures

All that can go wrong, of whatever part of the program.
-/

namespace ShaderAssembly

/-- A failure of one part of the program. -/
inductive Failure where
  | translation (e : TranslationError)
  | archive (e : ArchiveError)
  | config (reason : String)
deriving DecidableEq

/-- The text of a failure, which names the part that failed. -/
def Failure.message : Failure → String
  | translation e => s!"ARB translation error: {e.message}"
  | archive e => s!"Shader archive error: {e.message}"
  | config reason => s!"Config error: {reason}"

end ShaderAssembly
