import ShaderAssembly.Statement.Cursor
import ShaderAssembly.Statement.Fault
/-!
# Scanning

Steps that read tokens and nothing else. A step that fails leaves the cursor on the token that it
refused, or on the last one that it read.

* `Scan.next`, `Scan.peek`: the token behind the current one, with and without moving on to it;
* `Scan.expect`, `Scan.word`: a token of one class;
* `Scan.suffix?`: a point and one of some words, if they come next;
* `Scan.index`, `Scan.index?`, `Scan.range`: subscripts.
-/

namespace ShaderAssembly

/-- A step that reads tokens. -/
abbrev Scan := EStateM Fault Cursor

/-- A value and the byte to blame should it be refused. -/
structure Located (α : Type) where
  value : α
  offset : Nat

namespace Scan

/-- Refuses for a cause, to be blamed on byte `offset`. -/
def refuse {α : Type} (cause : Cause) (offset : Nat) : Scan α := throw ⟨cause, offset⟩

/-- Moves on to the next significant token. -/
def next : Scan Token := do
  modify Cursor.advance
  return (← get).current

/-- The next significant token, which stays unread. -/
def peek : Scan Token := return (← get).upcoming

/-- Refuses a token where something else is wanted. -/
def unexpected {α : Type} (wanted : String) (found : Token) : Scan α :=
  refuse (.unexpected wanted found) found.offset

/-- Reads a token of the given class. -/
def expect (kind : TokenKind) (wanted : String) : Scan Unit := do
  let t ← next
  if t.kind != kind then unexpected wanted t

/-- Reads a word. -/
def word (wanted : String) : Scan Token := do
  let t ← next
  if t.kind != .identifier then unexpected wanted t
  return t

/-- Reads a given word. -/
def keyword (text : String) : Scan Unit := do
  let t ← word text
  if t.text != text then unexpected text t

/-- Reads a point and a word, if the word is one of those accepted; otherwise reads nothing. -/
def suffix? (accepted : List String) : Scan (Option String) := do
  match (← get).rest with
  | point :: name :: _ =>
    if point.kind == .dot && name.kind == .identifier && accepted.contains name.text then
      let _ ← next
      let _ ← next
      return some name.text
    else return none
  | _ => return none

/-- Reads a whole number. -/
def integer (wanted : String) : Scan (Located Nat) := do
  let t ← next
  match t.kind with
  | .integer n => return ⟨n, t.offset⟩
  | _ => unexpected wanted t

/-- Reads a subscript `[n]`. -/
def index : Scan (Located Nat) := do
  expect .leftBracket "'['"
  let n ← integer "an integer index"
  expect .rightBracket "']'"
  return n

/-- Reads a subscript, if one comes next. -/
def index? : Scan (Option (Located Nat)) := do
  if (← peek).kind == .leftBracket then return some (← index) else return none

/-- Reads a subscript `[a]` or `[a..b]`: the first and the last index, of which the first is to
blame. -/
def range : Scan (Located (Nat × Nat)) := do
  expect .leftBracket "'['"
  let start ← integer "an integer index"
  let t ← next
  match t.kind with
  | .rightBracket => return ⟨(start.value, start.value), start.offset⟩
  | .dotDot =>
    let stop ← integer "an integer index"
    expect .rightBracket "']'"
    if stop.value < start.value then
      refuse (.reversedRange start.value stop.value) start.offset
    return ⟨(start.value, stop.value), start.offset⟩
  | _ => unexpected "']' or '..'" t

/-- Refuses an index that reaches its limit. -/
def below (limit : Nat) (what : String) (n : Located Nat) : Scan Unit :=
  if limit ≤ n.value then refuse (.indexLimit what n.value limit) n.offset else pure ()

end Scan

end ShaderAssembly
