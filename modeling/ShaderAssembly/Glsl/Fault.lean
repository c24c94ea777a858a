import ShaderAssembly.Diagnostic
import ShaderAssembly.Opcode
/-!
# Faults of generation

What can be wrong with a program that was not read from a text: registers that are not there or of
the wrong sort, bindings of the other kind of program, missing operands.
-/

namespace ShaderAssembly.Glsl

/-- What is wrong with a program. -/
inductive Cause where
  | addressInFragment (name : String)
  | attributeKind (name : String) (kind : ProgramKind)
  | resultKind (name : String) (kind : ProgramKind)
  | envRange (n : Nat)
  | localRange (n : Nat)
  | productProperty
  | noDestination (opcode : Opcode)
  | addressNotWritten
  | noSource (opcode : Opcode) (place : Nat)
  | noExtendedSwizzle
  | noTexture (opcode : Opcode)
  | noValue (opcode : Opcode)
  | biasedRectangle
  | unknownVariable (place : Nat)
  | unreadable (name : String)
  | unwritable (name : String)
deriving DecidableEq, Inhabited

/-- The wording of a cause. -/
def Cause.message : Cause → String
  | addressInFragment name => s!"address register `{name}` in a fragment program"
  | attributeKind name kind => s!"attribute `{name}` is not available in {kind.name} programs"
  | resultKind name kind => s!"result `{name}` is not available in {kind.name} programs"
  | envRange n => s!"program.env[{n}] out of range"
  | localRange n => s!"program.local[{n}] out of range"
  | productProperty => "light products only cover ambient, diffuse and specular"
  | noDestination opcode => s!"{opcode.mnemonic} has no destination"
  | addressNotWritten => "ARL must write an address register"
  | noSource opcode place => s!"{opcode.mnemonic} is missing source operand {place}"
  | noExtendedSwizzle => "SWZ without an extended swizzle"
  | noTexture opcode => s!"{opcode.mnemonic} without a texture unit"
  | noValue opcode => s!"{opcode.mnemonic} does not produce a value"
  | biasedRectangle => "TXB not supported on RECT textures"
  | unknownVariable place => s!"unknown variable {place}"
  | unreadable name => s!"`{name}` cannot be read"
  | unwritable name => s!"`{name}` cannot be written"

/-- A cause and where it lies. -/
structure Fault where
  cause : Cause
  locator : Locator
deriving DecidableEq, Inhabited

/-- A fault as the reason why a program has no translation. -/
def Fault.toError (f : Fault) : TranslationError := .generation f.cause.message f.locator

end ShaderAssembly.Glsl
