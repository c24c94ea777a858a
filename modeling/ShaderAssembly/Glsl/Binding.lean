import ShaderAssembly.Binding
import ShaderAssembly.Glsl.Expr
import ShaderAssembly.Glsl.Fault
import ShaderAssembly.Glsl.Name
import ShaderAssembly.Limits
/-!
# Bindings in a shader

The built-in variables that bindings stand for. What is not a vector of four there is filled up as
in `(0, 0, 0, 1)`.
-/

namespace ShaderAssembly.Glsl

/-- A constant vector. -/
def constant (v : Vector4) : Expr := .vector (.number v.x) (.number v.y) (.number v.z) (.number v.w)

/-- A scalar as a vector. -/
def scalarVector (e : Expr) : Expr := .vector e .zero .zero .one

/-- The color that a program reads. -/
def inputColor : ColorSet → Expr
  | .primary => .name "gl_Color"
  | .secondary => .name "gl_SecondaryColor"

/-- The value of an attribute. -/
def input : InputBinding → Expr
  | .vertexPosition => .name "gl_Vertex"
  | .vertexNormal => .call2 "vec4" (.name "gl_Normal") .one
  | .vertexColor set => inputColor set
  | .vertexFogCoord => scalarVector (.name "gl_FogCoord")
  | .vertexTexCoord n => .name s!"gl_MultiTexCoord{n}"
  | .fragmentColor set => inputColor set
  | .fragmentTexCoord n => .item (.name "gl_TexCoord") n
  | .fragmentFogCoord => scalarVector (.name "gl_FogFragCoord")
  | .fragmentPosition => .name "gl_FragCoord"

/-- A side of a polygon in the name of a built-in variable. -/
def faceName : Face → String
  | .front => "Front"
  | .back => "Back"

/-- A color in the name of a built-in variable. -/
def colorSetName : ColorSet → String
  | .primary => ""
  | .secondary => "Secondary"

/-- The ending of a matrix variable. A row of a matrix is a column of its transpose, and columns are
what a shader reads. -/
def matrixEnding : MatrixModifier → String
  | .identity => "Transpose"
  | .transpose => ""
  | .inverse => "InverseTranspose"
  | .inverseTranspose => "Inverse"

/-- A row of a matrix. -/
def matrixRow (matrix : MatrixName) (modifier : MatrixModifier) (row : Nat) : Expr :=
  let ending := matrixEnding modifier
  match matrix with
  | .modelView => .item (.name ("gl_ModelViewMatrix" ++ ending)) row
  | .projection => .item (.name ("gl_ProjectionMatrix" ++ ending)) row
  | .mvp => .item (.name ("gl_ModelViewProjectionMatrix" ++ ending)) row
  | .texture unit => .item (.item (.name ("gl_TextureMatrix" ++ ending)) unit) row

/-- The material of a side. -/
def materialOf (face : Face) : Expr := .name s!"gl_{faceName face}Material"

/-- A property of a material. -/
def material (face : Face) : MaterialProperty → Expr
  | .ambient => .field (materialOf face) "ambient"
  | .diffuse => .field (materialOf face) "diffuse"
  | .specular => .field (materialOf face) "specular"
  | .emission => .field (materialOf face) "emission"
  | .shininess => scalarVector (.field (materialOf face) "shininess")

/-- A light. -/
def lightSource (n : Nat) : Expr := .item (.name "gl_LightSource") n

/-- A property of a light. -/
def light (n : Nat) : LightProperty → Expr
  | .ambient => .field (lightSource n) "ambient"
  | .diffuse => .field (lightSource n) "diffuse"
  | .specular => .field (lightSource n) "specular"
  | .position => .field (lightSource n) "position"
  | .attenuation =>
    .vector (.field (lightSource n) "constantAttenuation")
      (.field (lightSource n) "linearAttenuation")
      (.field (lightSource n) "quadraticAttenuation")
      (.field (lightSource n) "spotExponent")
  | .spotDirection =>
    .call2 "vec4" (.field (lightSource n) "spotDirection") (.field (lightSource n) "spotCosCutoff")
  | .half => .call2 "vec4" (.field (.field (lightSource n) "halfVector") "xyz") .one

/-- The product of a light and the material of a side. -/
def productOf (n : Nat) (face : Face) : Expr :=
  .item (.name s!"gl_{faceName face}LightProduct") n

/-- A property of the product of a light and a material. -/
def lightProduct (n : Nat) (face : Face) : MaterialProperty → Except Cause Expr
  | .ambient => .ok (.field (productOf n face) "ambient")
  | .diffuse => .ok (.field (productOf n face) "diffuse")
  | .specular => .ok (.field (productOf n face) "specular")
  | .emission | .shininess => .error .productProperty

/-- A vector of the fixed pipeline's state. -/
def state : StateBinding → Except Cause Expr
  | .matrixRow matrix modifier row => .ok (matrixRow matrix modifier row)
  | .material face property => .ok (material face property)
  | .light n property => .ok (light n property)
  | .lightModelAmbient => .ok (.field (.name "gl_LightModel") "ambient")
  | .lightModelSceneColor face =>
    .ok (.field (.name s!"gl_{faceName face}LightModelProduct") "sceneColor")
  | .lightProduct n face property => lightProduct n face property
  | .fogColor => .ok (.field (.name "gl_Fog") "color")
  | .fogParams =>
    .ok (.vector (.field (.name "gl_Fog") "density") (.field (.name "gl_Fog") "start")
      (.field (.name "gl_Fog") "end") (.field (.name "gl_Fog") "scale"))
  | .clipPlane n => .ok (.item (.name "gl_ClipPlane") n)
  | .pointSize =>
    .ok (.vector (.field (.name "gl_Point") "size") (.field (.name "gl_Point") "sizeMin")
      (.field (.name "gl_Point") "sizeMax") (.field (.name "gl_Point") "fadeThresholdSize"))
  | .pointAttenuation =>
    .ok (.vector (.field (.name "gl_Point") "distanceConstantAttenuation")
      (.field (.name "gl_Point") "distanceLinearAttenuation")
      (.field (.name "gl_Point") "distanceQuadraticAttenuation") .one)
  | .texEnvColor n => .ok (.item (.name "gl_TextureEnvColor") n)
  | .depthRange =>
    .ok (.vector (.field (.name "gl_DepthRange") "near") (.field (.name "gl_DepthRange") "far")
      (.field (.name "gl_DepthRange") "diff") .one)

/-- A vector of a parameter. -/
def param (kind : ProgramKind) (limits : Limits) : ParamBinding → Except Cause Expr
  | .constant v => .ok (constant v)
  | .state binding => state binding
  | .env n =>
    if n < limits.maxEnvParams then .ok (.item (.name (envName kind)) n) else .error (.envRange n)
  | .localParam n =>
    if n < limits.maxLocalParams then .ok (.item (.name (localName kind)) n)
    else .error (.localRange n)

end ShaderAssembly.Glsl
