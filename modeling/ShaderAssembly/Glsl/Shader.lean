import ShaderAssembly.Glsl.Instruction
import ShaderAssembly.Glsl.Writer
/-!
# Shaders

* `shader`: the lines of the shader of a program, a fault in the place of a line that cannot be
  written;
* `generate`: the text of the shader, or its first fault;
* `generateWithin`: the same with a limit on the number of bytes.

Results that are scalars outside the program are kept in variables of four components while it runs
and handed over at its end.
-/

namespace ShaderAssembly.Glsl

variable (m : Model) (limits : Limits)

/-- The lines before `main` and its first. -/
def header : List Line :=
  [.version]
  ++ (if m.samplers.values.contains .rect then [.rectangleExtension] else [])
  ++ (if m.kind = .vertex then [.addressType] else [])
  ++ [.bank (envName m.kind) limits.maxEnvParams, .bank (localName m.kind) limits.maxLocalParams]
  ++ m.samplers.toList.map (fun (unit, target) => .sampler (samplerType target) (samplerName unit))
  ++ [.openMain]

/-! ## Declarations -/

/-- The variables that stand for scalar results. -/
def shadows : List Line :=
  (if m.kind = .vertex && m.special.writesFogCoord then
    [.declare "vec4" fogCoordName (scalarVector .zero)] else [])
  ++ (if m.kind = .fragment && m.special.writesDepth then
    [.declare "vec4" depthName (spread (.field (.name "gl_FragCoord") "z"))] else [])

/-- The declaration of the variable at place `i`, if it needs one. -/
def declaration (v : Variable) (i : Nat) : Except Cause (Option Line) := do
  let name := variableName m i
  match v.kind with
  | .temporary => return some (.declare "vec4" name .zeroVector)
  | .address =>
    if m.kind = .fragment then throw (.addressInFragment v.name)
    return some (.declare "ARBAddress" name (.call1 "ARBAddress" (.whole 0)))
  | .input binding =>
    if binding.kind ≠ m.kind then throw (.attributeKind v.name m.kind)
    return none
  | .param binding => return some (.declare "vec4" name (← param m.kind limits binding))
  | .paramArray items => return some (.declareArray name (← items.mapM (param m.kind limits)))
  | .output .pointSize => return some (.declare "vec4" name .zeroVector)
  | .output _ => return none

/-! ## Results -/

/-- The line that hands over the result at place `i`, if it needs one. -/
def handOver (v : Variable) (i : Nat) : Except Cause (Option Line) := do
  match v.kind with
  | .output binding =>
    if binding.kind ≠ m.kind then throw (.resultKind v.name m.kind)
    if binding = .pointSize then
      return some (.assign (.name "gl_PointSize") (.field (.name (variableName m i)) "x"))
    return none
  | _ => return none

/-- The fog density. -/
def fogDensity : Expr := .field (.name "gl_Fog") "density"

/-- The fog coordinate of a fragment. -/
def fogCoord : Expr := .name "gl_FogFragCoord"

/-- How much of the color is left by the fog. -/
def fogFactor : FogMode → Option Expr
  | .none => none
  | .exp => some (.call1 "exp" (.binary .mul (.negative fogDensity) fogCoord))
  | .exp2 =>
    let product := .group (.binary .mul fogDensity fogCoord)
    some (.call1 "exp" (.binary .mul (.negative product) product))
  | .linear =>
    some (.binary .mul (.group (.binary .sub (.field (.name "gl_Fog") "end") fogCoord))
      (.field (.name "gl_Fog") "scale"))

/-- The line that mixes fog into the color. -/
def mixFog (factor : Expr) : Line :=
  let color := .field (.name "gl_FragColor") "rgb"
  .assign color (.call3 "mix" (.field (.field (.name "gl_Fog") "color") "rgb") color
    (.call3 "clamp" factor .zero .one))

/-- The lines behind the instructions that depend on the features of the program. -/
def epilogue : List Line :=
  match m.kind with
  | .vertex =>
    (if m.special.writesFogCoord then
      [.assign (.name "gl_FogFragCoord") (.field (.name fogCoordName) "x")] else [])
    ++ (if m.special.positionInvariant then
      [.assign (.name "gl_Position") (.call0 "ftransform")] else [])
  | .fragment =>
    (if m.special.writesDepth then
      [.assign (.name "gl_FragDepth") (.field (.name depthName) "z")] else [])
    ++ ((fogFactor m.special.fog).map mixFog).toList

/-! ## The whole -/

/-- A line, or the fault in its place. -/
abbrev Item := Except Fault Line

/-- The items of the variables, for each of which `f` gives a line, none, or a fault of a phase. -/
def variableItems (phase : Phase) (f : Variable → Nat → Except Cause (Option Line)) : List Item :=
  m.vars.zipIdx.filterMap fun (v, i) =>
    match f v i with
    | .ok line => line.map .ok
    | .error cause => some (.error ⟨cause, .phase phase⟩)

/-- The item of an instruction. -/
def instructionItem (i : Instruction) : Item :=
  (statement m i).mapError fun cause => ⟨cause, .offset i.offset⟩

/-- The lines of the shader of a program, with faults in the place of lines that cannot be
written. -/
def shader : List Item :=
  (header m limits).map .ok
  ++ (shadows m).map .ok
  ++ variableItems m .declaration (declaration m limits)
  ++ m.instructions.map (instructionItem m)
  ++ variableItems m .postProcess (handOver m)
  ++ (epilogue m).map .ok
  ++ [.ok .closeMain]

/-- Writes items up to the first fault. -/
def Write.items : List Item → Write Unit
  | [] => pure ()
  | .ok line :: rest => do
    put line
    items rest
  | .error fault :: _ => throw fault.toError

/-- The text that a writer collects from items. -/
def textOf (w : Writer) (items : List Item) : Except TranslationError String :=
  match Write.items items w with
  | .ok _ w => .ok w.text
  | .error e _ => .error e

/-- The shader of a program. -/
def generate : Except TranslationError String := textOf {} (shader m limits)

/-- The shader of a program, of at most `bytes` bytes. -/
def generateWithin (bytes : Nat) : Except TranslationError String :=
  textOf { limit := some bytes } (shader m limits)

end ShaderAssembly.Glsl
