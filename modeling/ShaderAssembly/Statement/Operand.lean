import ShaderAssembly.Statement.Binding
import ShaderAssembly.Statement.Parse
import ShaderAssembly.Statement.Selector
/-!
# Operands

* `Parse.source`: a signed register with a swizzle;
* `Parse.destination`: a register with a mask;
* `Parse.texture`: a texture image unit and the shape of its texture.
-/

namespace ShaderAssembly

namespace Parse

variable (kind : ProgramKind) (limits : Limits)

/-! ## Sources -/

/-- Reads the offset behind an address register, if a sign comes next. -/
def relativeOffset : Scan Int := do
  let sign ← Scan.peek
  if sign.kind != .plus && sign.kind != .minus then return 0
  let _ ← Scan.next
  let n ← Scan.integer "an integer offset"
  let size := min n.value 0x7fffffff
  let offset : Int := if sign.kind == .minus then -size else size
  if offset < -64 || 63 < offset then Scan.refuse (.relativeOffset offset) n.offset
  return offset

/-- Reads the subscript `a.x`, `a.x + n` or `a.x - n` of the array at place `array`, from the name
of the address register on. -/
def relativeIndex (array : Nat) (name : Token) : Parse Register := do
  if kind != .vertex then refuse .relativeInFragment name.offset
  let (addr, v) ← resolve name
  if v.kind != .address then refuse (.notAddress name.text) name.offset
  Scan.expect .dot "'.'"
  let component ← Scan.word "'x'"
  if component.text != "x" then refuse .addressComponent component.offset
  return .relative array addr (← relativeOffset)

/-- Reads the subscript of the array at place `array`. -/
def elementOf (array : Nat) (length : Nat) : Parse Register := do
  let _ ← Scan.next
  let t ← Scan.next
  let register ←
    match t.kind with
    | .integer n =>
      if length ≤ n then refuse (.elementRange n length) t.offset else pure (.element array n)
    | .identifier => relativeIndex kind array t
    | _ => Scan.unexpected "an array index" t
  Scan.expect .rightBracket "']'"
  return register

/-- Reads a register of a declared variable, from its name on. -/
def declaredRegister (name : Token) : Parse Register := do
  let (i, v) ← resolve name
  if !v.kind.isReadable then refuse (.unreadable v.name) name.offset
  let hasIndex := (← Scan.peek).kind == .leftBracket
  match v.kind with
  | .paramArray items =>
    if hasIndex then elementOf kind i items.length
    else refuse (.arrayWithoutIndex v.name) name.offset
  | _ => if hasIndex then refuse (.notArray v.name) name.offset else return .whole i

/-- Reads a register that a source names, from `first` on. -/
def sourceRegister (first : Token) : Parse Register := do
  match first.kind with
  | .leftBrace => return .literal (← Scan.vector)
  | .integer _ | .float _ => return .literal (.replicate (← Scan.number first))
  | .identifier =>
    match first.text with
    | "vertex" | "fragment" =>
      let binding ← Scan.inputBinding kind limits first
      return .whole (← implicit (.input binding) first.offset)
    | "state" | "program" =>
      let binding ← Scan.singleParam limits first
      return .whole (← implicit (.param binding) first.offset)
    | "result" => refuse .resultRead first.offset
    | _ => declaredRegister kind first
  | _ => Scan.unexpected "a register" first

/-- Reads a source from `first` on; a bare one has no swizzle. -/
def source (first : Token) (bare : Bool) : Parse Source := do
  let (negate, start) ←
    match first.kind with
    | .minus => pure (true, ← Scan.next)
    | .plus => pure (false, ← Scan.next)
    | _ => pure (false, first)
  let register ← sourceRegister kind limits start
  let swizzle ← if bare then pure .identity else Scan.swizzle kind
  return { negate, register, swizzle }

/-! ## Destinations -/

/-- Reads a variable that a destination names, from `first` on: its place and its kind. -/
def destinationVariable (first : Token) : Parse (Nat × VariableKind) := do
  if first.kind != .identifier then Scan.unexpected "a register" first
  match first.text with
  | "vertex" | "fragment" | "state" | "program" =>
    refuse (.bindingWritten first.text) first.offset
  | "result" =>
    let binding ← Scan.outputBinding kind limits
    let i ← implicit (.output binding) first.offset
    return (i, .output binding)
  | _ =>
    let (i, v) ← resolve first
    if !v.kind.isWritable && v.kind != .address then refuse (.readOnly v.name) first.offset
    if (← Scan.peek).kind == .leftBracket then refuse (.notArray v.name) first.offset
    return (i, v.kind)

/-- Reads a destination from `first` on. Address registers are written by `ARL`, and only in their
component `x`. -/
def destination (first : Token) (opcode : Opcode) : Parse Destination := do
  let (var, variableKind) ← destinationVariable kind limits first
  let isAddress := variableKind == .address
  if isAddress && opcode != .arl then refuse .addressWrittenElsewhere first.offset
  if !isAddress && opcode == .arl then refuse .addressNotWritten first.offset
  let mask ← Scan.mask kind
  if isAddress && mask != .onlyX && mask != .all then refuse .addressComponent first.offset
  edit (·.write variableKind) first.offset
  return { var, mask := if isAddress then .onlyX else mask }

/-! ## Textures -/

/-- Reads `texture[n], TARGET`; without a subscript the unit is the first. -/
def texture : Parse TextureOperand := do
  let name ← Scan.word "a texture image unit"
  if name.text != "texture" then Scan.unexpected "a texture image unit" name
  let unit := ((← Scan.index?).map (·.value)).getD 0
  if limits.maxTextureUnits ≤ unit then
    refuse (.textureUnit unit limits.maxTextureUnits) name.offset
  Scan.expect .comma "','"
  let shape ← Scan.word "a texture target"
  match TextureTarget.ofName? shape.text with
  | none => Scan.unexpected "1D, 2D, 3D, CUBE or RECT" shape
  | some target =>
    edit (·.sample ⟨unit, target⟩) shape.offset
    return ⟨unit, target⟩

end Parse

end ShaderAssembly
