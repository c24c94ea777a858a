import ShaderAssembly.Binding
import ShaderAssembly.Statement.Scan
/-!
# Constants

* `Scan.signedNumber`: a number with an optional sign;
* `Scan.vector`: one to four of them in braces, the rest as in `(0, 0, 0, 1)`.
-/

namespace ShaderAssembly

/-- The number that a token denotes, if it denotes one. -/
def Token.number? (t : Token) : Option Single :=
  match t.kind with
  | .integer n => some (Single.ofNat n)
  | .float v => some v
  | _ => none

namespace Scan

/-- The finite number that `first` denotes. -/
def number (first : Token) : Scan Single :=
  match first.number? with
  | none => unexpected "a number" first
  | some v => if v.isFinite then pure v else refuse .constantRange first.offset

/-- Reads a number with an optional sign, from `first` on. -/
def signedNumber (first : Token) : Scan Single := do
  match first.kind with
  | .minus => return (← number (← next)).negate
  | .plus => number (← next)
  | _ => number first

/-- Reads the numbers of a vector up to its closing brace, at most `room` of them. -/
def components : Nat → Scan (List Single)
  | 0 => do unexpected "'\x7d'" (← next)
  | room + 1 => do
    let v ← signedNumber (← next)
    let t ← next
    match t.kind with
    | .comma => return v :: (← components room)
    | .rightBrace => return [v]
    | _ => unexpected "',' or '\x7d'" t

/-- Reads a vector behind its opening brace. -/
def vector : Scan Vector4 := return Vector4.ofPrefix (← components 4)

end Scan

end ShaderAssembly
