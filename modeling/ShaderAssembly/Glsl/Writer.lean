import ShaderAssembly.Diagnostic
import ShaderAssembly.Glsl.Line
/-!
# Limited writers

A writer collects text up to a number of bytes.

* `Write.push`: adds a piece of text, or refuses it whole;
* `Write.line`: adds an indented line piece by piece; if a piece is refused, the ones before it
  stay;
* `Write.put`: adds a line of a shader at its depth.
-/

namespace ShaderAssembly.Glsl

/-- The text written so far, the depth of the next line, and the number of bytes not to exceed. -/
structure Writer where
  text : String := ""
  depth : Nat := 0
  limit : Option Nat := none
deriving DecidableEq, Inhabited

namespace Writer

/-- The number of bytes written. -/
def length (w : Writer) : Nat := w.text.utf8ByteSize

/-- Whether nothing has been written. -/
def isEmpty (w : Writer) : Bool := w.length == 0

end Writer

/-- A step that writes. -/
abbrev Write := EStateM TranslationError Writer

namespace Write

/-- Adds a piece of text, unless it takes the writer beyond its limit. -/
def push (piece : String) : Write Unit := do
  let w ← get
  match w.limit with
  | some limit =>
    if limit < w.length + piece.utf8ByteSize then
      throw (.resource s!"output exceeds {limit} bytes")
  | none => pure ()
  set { w with text := w.text ++ piece }

/-- Adds the blanks before a line at depth `n`. -/
def margin : Nat → Write Unit
  | 0 => pure ()
  | n + 1 => do
    push "    "
    margin n

/-- Adds a line. -/
def line (text : String) : Write Unit := do
  margin (← get).depth
  push text
  push "\n"

/-- Moves the next line one step in. -/
def indent : Write Unit := modify fun w => { w with depth := w.depth + 1 }

/-- Moves the next line one step out, if it stands in at all. -/
def dedent : Write Unit := modify fun w => { w with depth := w.depth - 1 }

/-- Adds a line of a shader; what stands between the braces of `main` stands one step in. -/
def put (l : Line) : Write Unit := do
  match l with
  | .openMain =>
    line l.text
    indent
  | .closeMain =>
    dedent
    line l.text
  | _ => line l.text

end Write

end ShaderAssembly.Glsl
