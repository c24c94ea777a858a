import ShaderAssembly.ProgramKind
/-!
# Diagnostics

* `Locator`: where a translation failed, a byte offset or a phase of generation;
* `TranslationError`: why it failed, with `message` and the places recorded for it;
* `TranslationError.diagnostic`: the text handed to a caller.
-/

namespace ShaderAssembly

/-- The part of a shader that was being written. -/
inductive Phase where
  | declaration
  | instruction
  | postProcess
deriving DecidableEq, Repr, Inhabited

namespace Phase

/-- The number of a phase in a slot that has room for a number only. -/
def code : Phase → Nat
  | declaration => 0
  | instruction => 1
  | postProcess => 2

/-- The phase in words. -/
def text : Phase → String
  | declaration => "declaration phase"
  | instruction => "instruction phase"
  | postProcess => "post-processing phase"

end Phase

/-- Where a translation failed: a byte of the program text where one is to blame, and the phase of
generation otherwise. -/
inductive Locator where
  | offset (byte : Nat)
  | phase (phase : Phase)
deriving DecidableEq, Repr, Inhabited

namespace Locator

/-- The greatest number that a location slot holds. -/
def slotLimit : Nat := 0x7fffffff

/-- The locator as one number. Offsets and phase codes share its range, and an offset beyond the
range becomes the greatest number. -/
def toSlot : Locator → Nat
  | offset byte => min byte slotLimit
  | phase p => p.code

/-- The locator in words. -/
def text : Locator → String
  | offset byte => s!"byte {byte}"
  | phase p => p.text

end Locator

/-- Why a program has no translation. -/
inductive TranslationError where
  | headerMismatch (expected : ProgramKind)
  | headerMissing
  | framing
  | malformed (reason : String) (offset : Nat)
  | generation (reason : String) (locator : Locator)
  | resource (reason : String)
deriving DecidableEq, Repr, Inhabited

namespace TranslationError

/-- The full text of an error. -/
def message : TranslationError → String
  | headerMismatch expected => s!"Program type mismatch: expected a {expected.name} program header"
  | headerMissing => "No ARB program header found"
  | framing => "Header line must be terminated before the program body"
  | malformed reason _ => s!"Syntax error: {reason}"
  | generation reason _ => s!"Generation error: {reason}"
  | resource reason => s!"Resource error: {reason}"

/-- The place recorded with an error; a lack of resources has none. -/
def locator? : TranslationError → Option Locator
  | headerMismatch _ | headerMissing | framing => some (.offset 0)
  | malformed _ byte => some (.offset byte)
  | generation _ locator => some locator
  | resource _ => none

/-- The place of an error: the start of the text where none is recorded. -/
def locator (e : TranslationError) : Locator := e.locator?.getD (.offset 0)

/-- The text for the caller. An error without a place is only said to have happened. -/
def diagnostic (e : TranslationError) : String :=
  if e.locator?.isSome then e.message else "conversion error"

end TranslationError

end ShaderAssembly
