import ShaderAssembly.Limits
import ShaderAssembly.Statement.Constant
/-!
# Reading bindings

* `Scan.inputBinding`: `vertex.…` and `fragment.…`;
* `Scan.outputBinding`: `result.…`;
* `Scan.stateBinding`: `state.…`, of which a matrix is several vectors;
* `Scan.paramItem`: one initializer of a parameter.

Each starts behind the word that names its root.
-/

namespace ShaderAssembly

namespace Scan

variable (kind : ProgramKind) (limits : Limits)

/-! ## Attributes and results -/

/-- Reads `.primary` or `.secondary`, if one comes next. -/
def colorSet : Scan ColorSet := do
  return if (← suffix? ["primary", "secondary"]) == some "secondary" then .secondary else .primary

/-- Reads `.front` or `.back`, if one comes next. -/
def face : Scan Face := do
  return if (← suffix? ["front", "back"]) == some "back" then .back else .front

/-- Reads the subscript of a texture coordinate set; without one the set is the first. -/
def texCoord (name : Token) : Scan Nat := do
  let n := (← index?).getD ⟨0, name.offset⟩
  below limits.maxTextureCoords "texture coordinate set" n
  return n.value

/-- Reads an attribute behind its root. -/
def inputBinding (root : Token) : Scan InputBinding := do
  if (root.text == "vertex") != (kind == .vertex) then
    refuse (.bindingKind root.text kind) root.offset
  expect .dot "'.'"
  let name ← word "an attribute"
  match kind, name.text with
  | .vertex, "position" => return .vertexPosition
  | .vertex, "normal" => return .vertexNormal
  | .vertex, "fogcoord" => return .vertexFogCoord
  | .vertex, "color" => return .vertexColor (← colorSet)
  | .vertex, "texcoord" => return .vertexTexCoord (← texCoord limits name)
  | .vertex, "attrib" =>
    let n ← index
    match InputBinding.ofGenericAttribute? n.value with
    | some binding => return binding
    | none => refuse (.genericAttribute n.value) n.offset
  | .fragment, "position" => return .fragmentPosition
  | .fragment, "fogcoord" => return .fragmentFogCoord
  | .fragment, "color" => return .fragmentColor (← colorSet)
  | .fragment, "texcoord" => return .fragmentTexCoord (← texCoord limits name)
  | _, _ => refuse (.unknownAttribute name.text) name.offset

/-- Reads a result behind its root. -/
def outputBinding : Scan OutputBinding := do
  expect .dot "'.'"
  let name ← word "a result register"
  match kind, name.text with
  | .vertex, "position" => return .position
  | .vertex, "fogcoord" => return .fogCoord
  | .vertex, "pointsize" => return .pointSize
  | .vertex, "texcoord" => return .texCoord (← texCoord limits name)
  | .vertex, "color" =>
    let side ← face
    return .color side (← colorSet)
  | .fragment, "color" => return .fragColor
  | .fragment, "depth" => return .fragDepth
  | _, _ => refuse (.unknownResult name.text kind) name.offset

/-! ## State of the fixed pipeline -/

/-- Reads a property of a material. -/
def materialProperty : Scan MaterialProperty := do
  let name ← word "a material property"
  match name.text with
  | "ambient" => return .ambient
  | "diffuse" => return .diffuse
  | "specular" => return .specular
  | "emission" => return .emission
  | "shininess" => return .shininess
  | _ => unexpected "a material property" name

/-- Reads a property that the product of a light and a material has. -/
def productProperty : Scan MaterialProperty := do
  let name ← word "a material property"
  match name.text with
  | "ambient" => return .ambient
  | "diffuse" => return .diffuse
  | "specular" => return .specular
  | _ => unexpected "a material property" name

/-- Reads the number of a light. -/
def lightIndex : Scan Nat := do
  let n ← index
  below lightCount "light" n
  return n.value

/-- Reads a property of a light. -/
def lightProperty : Scan LightProperty := do
  let name ← word "a light property"
  match name.text with
  | "ambient" => return .ambient
  | "diffuse" => return .diffuse
  | "specular" => return .specular
  | "position" => return .position
  | "attenuation" => return .attenuation
  | "spot" =>
    expect .dot "'.'"
    keyword "direction"
    return .spotDirection
  | "half" => return .half
  | _ => unexpected "a light property" name

/-- Reads the number of a texture unit that has a coordinate set; without a subscript it is the
first. -/
def coordUnit (what : String) : Scan Nat := do
  match ← index? with
  | none => return 0
  | some n =>
    below limits.maxTextureCoords what n
    return n.value

/-- Reads the name of a matrix. -/
def matrixName : Scan MatrixName := do
  let name ← word "a matrix name"
  match name.text with
  | "modelview" =>
    match ← index? with
    | none => return .modelView
    | some n => if n.value = 0 then return .modelView else refuse .modelviewIndex n.offset
  | "projection" => return .projection
  | "mvp" => return .mvp
  | "texture" => return .texture (← coordUnit limits "texture matrix")
  | _ => refuse (.unsupportedMatrix name.text) name.offset

/-- Reads what is taken of a matrix. -/
def matrixModifier : Scan MatrixModifier := do
  match ← suffix? ["inverse", "transpose", "invtrans"] with
  | some "inverse" => return .inverse
  | some "transpose" => return .transpose
  | some "invtrans" => return .inverseTranspose
  | _ => return .identity

/-- Reads the first and the last row of a matrix; without a subscript all rows are meant. -/
def matrixRows : Scan (Nat × Nat) := do
  match ← suffix? ["row"] with
  | none => return (0, matrixRowCount - 1)
  | some _ =>
    let rows ← range
    below matrixRowCount "matrix row" ⟨rows.value.2, rows.offset⟩
    return rows.value

/-- The numbers from `start` to `stop`. -/
def span (start stop : Nat) : List Nat := List.range' start (stop + 1 - start)

/-- Reads rows of a matrix. -/
def matrixBinding : Scan (List StateBinding) := do
  expect .dot "'.'"
  let matrix ← matrixName limits
  let modifier ← matrixModifier
  let (start, stop) ← matrixRows
  return (span start stop).map (.matrixRow matrix modifier)

/-- Reads a vector of the state, or the rows of a matrix, behind the root. -/
def stateBinding : Scan (List StateBinding) := do
  expect .dot "'.'"
  let group ← word "a state group"
  match group.text with
  | "matrix" => matrixBinding limits
  | "material" =>
    let side ← face
    expect .dot "'.'"
    return [.material side (← materialProperty)]
  | "light" =>
    let light ← lightIndex
    expect .dot "'.'"
    return [.light light (← lightProperty)]
  | "lightmodel" =>
    expect .dot "'.'"
    let name ← word "a light model property"
    match name.text with
    | "ambient" => return [.lightModelAmbient]
    | "scenecolor" => return [.lightModelSceneColor .front]
    | "front" =>
      expect .dot "'.'"
      keyword "scenecolor"
      return [.lightModelSceneColor .front]
    | "back" =>
      expect .dot "'.'"
      keyword "scenecolor"
      return [.lightModelSceneColor .back]
    | _ => unexpected "a light model property" name
  | "lightprod" =>
    let light ← lightIndex
    let side ← face
    expect .dot "'.'"
    return [.lightProduct light side (← productProperty)]
  | "fog" =>
    expect .dot "'.'"
    let name ← word "color or params"
    match name.text with
    | "color" => return [.fogColor]
    | "params" => return [.fogParams]
    | _ => unexpected "color or params" name
  | "clip" =>
    let n ← index
    below clipPlaneCount "clip plane" n
    expect .dot "'.'"
    keyword "plane"
    return [.clipPlane n.value]
  | "point" =>
    expect .dot "'.'"
    let name ← word "size or attenuation"
    match name.text with
    | "size" => return [.pointSize]
    | "attenuation" => return [.pointAttenuation]
    | _ => unexpected "size or attenuation" name
  | "texenv" =>
    let unit ← coordUnit limits "texture environment"
    expect .dot "'.'"
    keyword "color"
    return [.texEnvColor unit]
  | "depth" =>
    expect .dot "'.'"
    keyword "range"
    return [.depthRange]
  | _ => refuse (.unsupportedState group.text) group.offset

/-! ## Parameters -/

/-- Reads places in a parameter bank behind the root. Several are for arrays only. -/
def bankBinding (root : Token) (multiple : Bool) : Scan (List ParamBinding) := do
  expect .dot "'.'"
  let bank ← word "env or local"
  let (place, limit) : (Nat → ParamBinding) × Nat ←
    match bank.text with
    | "env" => pure (.env, limits.maxEnvParams)
    | "local" => pure (.localParam, limits.maxLocalParams)
    | _ => unexpected "env or local" bank
  let places ← range
  let (start, stop) := places.value
  if !multiple && start != stop then refuse .bankRangeOutsideArray root.offset
  if limit ≤ stop then refuse (.bankLimit bank.text stop limit) places.offset
  return (span start stop).map place

/-- Reads one initializer of a parameter, from `first` on. Several vectors are for arrays only. -/
def paramItem (first : Token) (multiple : Bool) : Scan (List ParamBinding) := do
  match first.kind with
  | .leftBrace => return [.constant (← vector)]
  | .minus | .plus | .integer _ | .float _ =>
    return [.constant (.replicate (← signedNumber first))]
  | .identifier =>
    match first.text with
    | "state" =>
      let items ← stateBinding limits
      if !multiple && items.length != 1 then refuse .manyVectors first.offset
      return items.map .state
    | "program" => bankBinding limits first multiple
    | _ => unexpected "a parameter binding" first
  | _ => unexpected "a parameter binding" first

/-- Reads an initializer that is one vector, from `first` on. -/
def singleParam (first : Token) : Scan ParamBinding := do
  match ← paramItem limits first false with
  | item :: _ => return item
  | [] => refuse .noVector first.offset

/-- Reads the initializers of an array behind its opening brace. Each takes a token at least, so
there are fewer of them than `bound`, one more than the number of tokens left. -/
def paramItemsWithin : Nat → Scan (List ParamBinding)
  | 0 => do unexpected "',' or '\x7d'" (← next)
  | bound + 1 => do
    let items ← paramItem limits (← next) true
    let t ← next
    match t.kind with
    | .comma => return items ++ (← paramItemsWithin bound)
    | .rightBrace => return items
    | _ => unexpected "',' or '\x7d'" t

/-- Reads the initializers of an array behind its opening brace. -/
def paramItems : Scan (List ParamBinding) := do
  paramItemsWithin limits ((← get).rest.length + 1)

end Scan

end ShaderAssembly
