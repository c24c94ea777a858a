import ShaderAssembly.Glsl.Shader
import ShaderAssembly.Header
import ShaderAssembly.ProgramReader
/-!
# Translation

* `readProgram`: the program of a text;
* `translate`: its shader;
* `Slots.convert`: a translation that leaves its diagnostics in two slots.
-/

namespace ShaderAssembly

/-- Whether the line of the signature ends, or is at least left by a blank, at byte `start`. -/
def isFramed (source : String) (start : Nat) : Bool :=
  match Token.ofSource source start with
  | t :: _ => t.isTrivia
  | [] => false

/-- An error with its byte inside a text of `length` bytes: the last one instead of the end. -/
def TranslationError.clamp (length : Nat) : TranslationError → TranslationError
  | .malformed reason offset =>
    .malformed reason (if length ≤ offset then length - 1 else offset)
  | e => e

/-- The program of a text. -/
def readProgram (settings : TranslatorSettings) (source : String) (kind : ProgramKind) :
    Except TranslationError Model := do
  let start ← Header.classify source kind
  if !isFramed source start then throw .framing
  let reader := (ProgramReader.ofSource source start).run kind (settings.limits kind)
  (reader.finish kind).mapError (·.clamp source.utf8ByteSize)

/-- The shader of a program text. -/
def translate (settings : TranslatorSettings) (source : String) (kind : ProgramKind) :
    Except TranslationError String := do
  let m ← readProgram settings source kind
  Glsl.generate m (settings.limits kind)

/-- The two slots in which a caller finds out about failures: the last message, and the place of the
last failure, or `-1` after a success. -/
structure Slots where
  message : Option String := none
  location : Int := 0
deriving DecidableEq, Inhabited

/-- Translates with the built-in limits. A failure replaces the message; a success leaves it. -/
def Slots.convert (s : Slots) (source : String) (vertex : Bool) : Option String × Slots :=
  match translate {} source (.ofVertexFlag vertex) with
  | .ok text => (some text, { s with location := -1 })
  | .error e => (none, { message := some e.diagnostic, location := e.locator.toSlot })

end ShaderAssembly
