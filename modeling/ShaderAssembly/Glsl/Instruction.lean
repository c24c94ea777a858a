import ShaderAssembly.Glsl.Binding
import ShaderAssembly.Glsl.Line
import ShaderAssembly.Model
/-!
# Instructions in a shader

* `readVariable`, `writeVariable`: the variable at a place as a value and as a target;
* `vectorSource`, `scalarSource`: an operand;
* `value`: what an instruction computes;
* `statement`: the line of an instruction.
-/

namespace ShaderAssembly.Glsl

variable (m : Model)

/-! ## Registers -/

/-- The variable at a place. -/
def variableAt (i : Nat) : Except Cause Variable :=
  match m.vars[i]? with
  | some v => .ok v
  | none => .error (.unknownVariable i)

/-- The value of the variable at a place. -/
def readVariable (i : Nat) : Except Cause Expr := do
  let v ← variableAt m i
  match v.kind with
  | .input binding => return input binding
  | kind => if kind.isReadable then return .name (variableName m i) else throw (.unreadable v.name)

/-- The target that a result stands for. -/
def output (i : Nat) : OutputBinding → Expr
  | .position => .name "gl_Position"
  | .color face set => .name s!"gl_{faceName face}{colorSetName set}Color"
  | .texCoord n => .item (.name "gl_TexCoord") n
  | .fogCoord => .name fogCoordName
  | .pointSize => .name (variableName m i)
  | .fragColor => .name "gl_FragColor"
  | .fragDepth => .name depthName

/-- The variable at a place as a target. -/
def writeVariable (i : Nat) : Except Cause Expr := do
  let v ← variableAt m i
  match v.kind with
  | .temporary => return .name (variableName m i)
  | .output binding => return output m i binding
  | _ => throw (.unwritable v.name)

/-- The place that an address register and an offset denote. -/
def relativePlace (addr : Nat) (offset : Int) : Expr :=
  let base := .field (.name (variableName m addr)) "x"
  if offset = 0 then base
  else if offset < 0 then .binary .sub base (.whole offset.natAbs)
  else .binary .add base (.whole offset.natAbs)

/-- The value of a register. -/
def register : Register → Except Cause Expr
  | .whole i => readVariable m i
  | .element i n => .ok (.item (.name (variableName m i)) n)
  | .relative i addr offset =>
    .ok (.element (.name (variableName m i)) (relativePlace m addr offset))
  | .literal v => .ok (constant v)

/-! ## Operands -/

/-- A value with its sign. -/
def signed (negate : Bool) (e : Expr) : Expr := if negate then .group (.negative e) else e

/-- A source as a vector. -/
def vectorSource (s : Source) : Except Cause Expr := do
  let e ← register m s.register
  return signed s.negate (if s.swizzle = .identity then e else .field e s.swizzle.text)

/-- A source as a scalar. -/
def scalarSource (s : Source) : Except Cause Expr := do
  let e ← register m s.register
  return signed s.negate (.field e (Component.text [s.swizzle.first]))

/-- The source at a place of an instruction. -/
def sourceAt (i : Instruction) (place : Nat) : Except Cause Source :=
  match i.sources[place]? with
  | some s => .ok s
  | none => .error (.noSource i.opcode place)

/-- The operand at a place of an instruction. -/
def operand (i : Instruction) (place : Nat) : Except Cause Expr := do
  let s ← sourceAt i place
  if i.opcode.shape.scalarSources then scalarSource m s else vectorSource m s

/-- One place of an extended swizzle of `base`. The signs of the place and of the operand cancel;
zero has none. -/
def selection (negate : Bool) (base : Expr) (s : SignedSelection) : Expr :=
  let sign (e : Expr) : Expr := if s.negate != negate then .negative e else e
  match s.select with
  | .zero => .zero
  | .one => sign .one
  | .component c => sign (.field base (Component.text [c]))

/-- An extended swizzle of a source. -/
def extended (e : ExtendedSwizzle) (s : Source) : Except Cause Expr := do
  let base ← register m s.register
  return .vector (selection s.negate base e.x) (selection s.negate base e.y)
    (selection s.negate base e.z) (selection s.negate base e.w)

/-! ## Textures -/

/-- The function that reads a texture. -/
def textureFunction : TextureTarget → String
  | .tex1D => "texture1D"
  | .tex2D => "texture2D"
  | .tex3D => "texture3D"
  | .cube => "textureCube"
  | .rect => "texture2DRect"

/-- The components of a coordinate that a texture uses. -/
def textureSelector : TextureTarget → String
  | .tex1D => "x"
  | .tex2D => "xy"
  | .tex3D => "xyz"
  | .cube => "xyz"
  | .rect => "xy"

/-- The type of a sampler. -/
def samplerType : TextureTarget → String
  | .tex1D => "sampler1D"
  | .tex2D => "sampler2D"
  | .tex3D => "sampler3D"
  | .cube => "samplerCube"
  | .rect => "sampler2DRect"

/-- The texture at a coordinate. -/
def plainTexture (t : TextureOperand) (coord : Expr) : Expr :=
  .call2 (textureFunction t.target) (.name (samplerName t.unit))
    (.field coord (textureSelector t.target))

/-- The texture at a coordinate divided by its last component. -/
def projectedTexture (t : TextureOperand) (coord : Expr) : Expr :=
  let sampler := .name (samplerName t.unit)
  if t.target = .cube then
    .call2 (textureFunction t.target) sampler
      (.binary .div (.field coord "xyz") (.field coord "w"))
  else .call2 (textureFunction t.target ++ "Proj") sampler coord

/-- The texture at a coordinate whose last component shifts the level of detail. -/
def biasedTexture (t : TextureOperand) (coord : Expr) : Except Cause Expr :=
  if t.target = .rect then .error .biasedRectangle
  else .ok (.call3 (textureFunction t.target) (.name (samplerName t.unit))
    (.field coord (textureSelector t.target)) (.field coord "w"))

/-- The texture of an instruction. -/
def textureOf (i : Instruction) : Except Cause TextureOperand :=
  match i.texture with
  | some t => .ok t
  | none => .error (.noTexture i.opcode)

/-! ## Values -/

/-- A scalar in all places. -/
def spread (e : Expr) : Expr := .call1 "vec4" e

/-- The first three components. -/
def xyz (e : Expr) : Expr := .field e "xyz"

/-- The components of a lighting coefficient: the diffuse term, and the specular one where the
diffuse one is positive. -/
def lightingValue (a : Expr) : Expr :=
  let x := .field a "x"
  let y := .field a "y"
  let w := .field a "w"
  let bound := Single.ofNat 128
  .vector .one (.call2 "max" x .zero)
    (.choose (.group (.binary .greater x .zero))
      (.call2 "pow" (.call2 "max" y .zero)
        (.call3 "clamp" w (.number bound.negate) (.number bound)))
      .zero)
    .one

/-- A logarithm by its whole part, the rest of its argument, and itself. -/
def logarithmValue (a : Expr) : Expr :=
  let size := .call1 "abs" a
  let log := .call1 "log2" size
  let floor := .call1 "floor" log
  .vector floor (.binary .div size (.call1 "exp2" floor)) log .one

/-- What an instruction computes. -/
def value (i : Instruction) : Except Cause Expr := do
  let src := operand m i
  match i.opcode with
  | .abs => return .call1 "abs" (← src 0)
  | .add => return .group (.binary .add (← src 0) (← src 1))
  | .cmp =>
    let c ← src 2
    let b ← src 1
    let a ← src 0
    return .call3 "mix" c b (spread (.call2 "lessThan" a .zeroVector))
  | .cos => return spread (.call1 "cos" (← src 0))
  | .dp3 => return spread (.call2 "dot" (xyz (← src 0)) (xyz (← src 1)))
  | .dp4 => return spread (.call2 "dot" (← src 0) (← src 1))
  | .dph =>
    let b ← src 1
    let a ← src 0
    return spread (.binary .add (.call2 "dot" (xyz a) (xyz b)) (.field b "w"))
  | .dst =>
    let a ← src 0
    let b ← src 1
    return .vector .one (.binary .mul (.field a "y") (.field b "y")) (.field a "z") (.field b "w")
  | .ex2 => return spread (.call1 "exp2" (← src 0))
  | .exp =>
    let a ← src 0
    return .vector (.call1 "exp2" (.call1 "floor" a)) (.call1 "fract" a) (.call1 "exp2" a) .one
  | .flr => return .call1 "floor" (← src 0)
  | .frc => return .call1 "fract" (← src 0)
  | .lg2 => return spread (.call1 "log2" (← src 0))
  | .lit => return lightingValue (← src 0)
  | .log => return logarithmValue (← src 0)
  | .lrp =>
    let c ← src 2
    let b ← src 1
    let a ← src 0
    return .call3 "mix" c b a
  | .mad =>
    let a ← src 0
    let b ← src 1
    return .group (.binary .add (.binary .mul a b) (← src 2))
  | .max => return .call2 "max" (← src 0) (← src 1)
  | .min => return .call2 "min" (← src 0) (← src 1)
  | .mov => src 0
  | .mul => return .group (.binary .mul (← src 0) (← src 1))
  | .pow => return spread (.call2 "pow" (← src 0) (← src 1))
  | .rcp => return spread (.binary .div .one (← src 0))
  | .rsq => return spread (.call1 "inversesqrt" (.call1 "abs" (← src 0)))
  | .scs =>
    let a ← src 0
    return .vector (.call1 "cos" a) (.call1 "sin" a) .zero .zero
  | .sge => return spread (.call2 "greaterThanEqual" (← src 0) (← src 1))
  | .sin => return spread (.call1 "sin" (← src 0))
  | .slt => return spread (.call2 "lessThan" (← src 0) (← src 1))
  | .sub => return .group (.binary .sub (← src 0) (← src 1))
  | .swz =>
    match i.extended with
    | some e => extended m e (← sourceAt i 0)
    | none => throw .noExtendedSwizzle
  | .xpd => return .call2 "vec4" (.call2 "cross" (xyz (← src 0)) (xyz (← src 1))) .zero
  | .tex =>
    let t ← textureOf i
    return plainTexture t (← src 0)
  | .txb =>
    let t ← textureOf i
    biasedTexture t (← src 0)
  | .txp =>
    let t ← textureOf i
    return projectedTexture t (← src 0)
  | .arl | .kil => throw (.noValue i.opcode)

/-! ## Statements -/

/-- The line that writes a value to the components of a mask. -/
def store (target : Expr) (mask : WriteMask) (e : Expr) : Line :=
  if mask = .all then .assign target e
  else .assign (.field target mask.text) (.field (.group e) mask.text)

/-- The destination of an instruction. -/
def destinationOf (i : Instruction) : Except Cause Destination :=
  match i.destination with
  | some d => .ok d
  | none => .error (.noDestination i.opcode)

/-- The line of an instruction. -/
def statement (i : Instruction) : Except Cause Line := do
  match i.opcode with
  | .kil =>
    let a ← vectorSource m (← sourceAt i 0)
    return .discardIf (.call1 "any" (.call2 "lessThan" a .zeroVector))
  | .arl =>
    let d ← destinationOf i
    if (m.vars[d.var]?).map (·.kind) != some .address then throw .addressNotWritten
    let a ← scalarSource m (← sourceAt i 0)
    return .assign (.field (.name (variableName m d.var)) "x")
      (.call1 "int" (.call1 "floor" a))
  | _ =>
    let d ← destinationOf i
    let target ← writeVariable m d.var
    let e ← value m i
    return store target d.mask (if i.saturate then .call3 "clamp" e .zero .one else e)

end ShaderAssembly.Glsl
