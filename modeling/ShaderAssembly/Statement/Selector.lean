import ShaderAssembly.Component
import ShaderAssembly.Statement.Scan
/-!
# Selectors

What may follow a point behind an operand: one or four letters behind a source, and behind a
destination letters in strict order. Fragment programs may use the color letters, but no mixture.

* `Selector.components?`, `Selector.swizzle?`, `Selector.mask?`: the meaning of a text;
* `Scan.swizzle`, `Scan.mask`: a selector behind an operand, if there is one;
* `Scan.extendedSwizzle`: the four places of an extended swizzle.
-/

namespace ShaderAssembly

namespace Selector

/-- The components that a selector lists: letters of one family only. -/
def components? (kind : ProgramKind) (text : String) : Option (List Component) :=
  let letters := text.toList
  let oneFamily := letters.all "xyzw".toList.contains || letters.all "rgba".toList.contains
  if letters.isEmpty || !oneFamily then none
  else letters.mapM (Component.ofLetter? (kind == .fragment))

/-- The swizzle of one component, replicated, or of four. -/
def swizzle? : List Component → Option Swizzle
  | [c] => some (.replicate c)
  | [a, b, c, d] => some ⟨a, b, c, d⟩
  | _ => none

/-- Whether the components stand in strict order. -/
def isOrdered : List Component → Bool
  | [] => true
  | [_] => true
  | c :: d :: cs => c.index < d.index && isOrdered (d :: cs)

/-- The mask of components that stand in strict order. -/
def mask? (cs : List Component) : Option WriteMask :=
  if isOrdered cs then some (.ofList cs) else none

end Selector

namespace Scan

variable (kind : ProgramKind)

/-- Reads a selector, if a point comes next: the token and the components that it lists. -/
def selector? : Scan (Option (Token × List Component)) := do
  if (← peek).kind != .dot then return none
  let _ ← next
  let t ← next
  match Selector.components? kind t.text with
  | some cs => return some (t, cs)
  | none => refuse (.selector t.text) t.offset

/-- Reads the swizzle behind a source. -/
def swizzle : Scan Swizzle := do
  match ← selector? kind with
  | none => return .identity
  | some (t, cs) =>
    match Selector.swizzle? cs with
    | some s => return s
    | none => refuse (.swizzleLength t.text) t.offset

/-- Reads the mask behind a destination. -/
def mask : Scan WriteMask := do
  match ← selector? kind with
  | none => return .all
  | some (t, cs) =>
    match Selector.mask? cs with
    | some m => return m
    | none => refuse (.maskOrder t.text) t.offset

/-- The selection that a token denotes. -/
def selection (t : Token) : Scan Selection :=
  match t.kind with
  | .integer 0 => pure .zero
  | .integer 1 => pure .one
  | .identifier =>
    match t.text.toList with
    | [c] =>
      match Component.ofLetter? (kind == .fragment) c with
      | some component => pure (.component component)
      | none => unexpected "a swizzle component" t
    | _ => unexpected "a swizzle component" t
  | _ => unexpected "0, 1 or a component" t

/-- Reads a comma and one place of an extended swizzle. -/
def signedSelection : Scan SignedSelection := do
  expect .comma "','"
  let t ← next
  match t.kind with
  | .minus => return ⟨true, ← selection kind (← next)⟩
  | .plus => return ⟨false, ← selection kind (← next)⟩
  | _ => return ⟨false, ← selection kind t⟩

/-- Reads the four places of an extended swizzle. -/
def extendedSwizzle : Scan ExtendedSwizzle := do
  let x ← signedSelection kind
  let y ← signedSelection kind
  let z ← signedSelection kind
  let w ← signedSelection kind
  return ⟨x, y, z, w⟩

end Scan

end ShaderAssembly
