import ShaderAssembly.ProgramKind
import ShaderAssembly.Single
/-!
# Bindings

A binding names what a register stands for outside the program: an attribute, a result, a vector of
the fixed pipeline's state, or a place in one of the two parameter banks.

* `InputBinding`, `OutputBinding`, `StateBinding`, `ParamBinding`;
* `InputBinding.ofGenericAttribute?`: the attributes that the numbered ones stand for.
-/

namespace ShaderAssembly

/-- Lights are numbered below this. -/
def lightCount : Nat := 8

/-- Clip planes are numbered below this. -/
def clipPlaneCount : Nat := 6

/-- Matrix rows are numbered below this. -/
def matrixRowCount : Nat := 4

/-- A vector of four numbers. -/
structure Vector4 where
  x : Single
  y : Single
  z : Single
  w : Single
deriving DecidableEq, Inhabited

namespace Vector4

/-- One number in all places. -/
def replicate (v : Single) : Vector4 := ⟨v, v, v, v⟩

/-- The numbers by place. -/
def toList (v : Vector4) : List Single := [v.x, v.y, v.z, v.w]

/-- The vector that a list begins, the rest of it as in `(0, 0, 0, 1)`. -/
def ofPrefix (vs : List Single) : Vector4 where
  x := vs[0]?.getD (Single.zero false)
  y := vs[1]?.getD (Single.zero false)
  z := vs[2]?.getD (Single.zero false)
  w := vs[3]?.getD Single.one

end Vector4

/-- One of the two colors. -/
inductive ColorSet where
  | primary
  | secondary
deriving DecidableEq, Repr, Inhabited

/-- One of the two sides of a polygon. -/
inductive Face where
  | front
  | back
deriving DecidableEq, Repr, Inhabited

/-- An attribute that a program reads. -/
inductive InputBinding where
  | vertexPosition
  | vertexNormal
  | vertexColor (set : ColorSet)
  | vertexFogCoord
  | vertexTexCoord (unit : Nat)
  | fragmentColor (set : ColorSet)
  | fragmentTexCoord (unit : Nat)
  | fragmentFogCoord
  | fragmentPosition
deriving DecidableEq, Repr, Inhabited

namespace InputBinding

/-- The kind of program that has the attribute. -/
def kind : InputBinding → ProgramKind
  | vertexPosition | vertexNormal | vertexColor _ | vertexFogCoord | vertexTexCoord _ => .vertex
  | fragmentColor _ | fragmentTexCoord _ | fragmentFogCoord | fragmentPosition => .fragment

/-- The attribute that a numbered vertex attribute stands for, where it stands for one. -/
def ofGenericAttribute? (n : Nat) : Option InputBinding :=
  if n = 0 then some vertexPosition
  else if n = 2 then some vertexNormal
  else if n = 3 then some (vertexColor .primary)
  else if n = 4 then some (vertexColor .secondary)
  else if n = 5 then some vertexFogCoord
  else if 8 ≤ n ∧ n ≤ 15 then some (vertexTexCoord (n - 8))
  else none

end InputBinding

/-- A result that a program writes. -/
inductive OutputBinding where
  | position
  | color (face : Face) (set : ColorSet)
  | texCoord (unit : Nat)
  | fogCoord
  | pointSize
  | fragColor
  | fragDepth
deriving DecidableEq, Repr, Inhabited

/-- The kind of program that has the result. -/
def OutputBinding.kind : OutputBinding → ProgramKind
  | fragColor | fragDepth => .fragment
  | position | color _ _ | texCoord _ | fogCoord | pointSize => .vertex

/-- A matrix of the fixed pipeline. -/
inductive MatrixName where
  | modelView
  | projection
  | mvp
  | texture (unit : Nat)
deriving DecidableEq, Repr, Inhabited

/-- What is taken of a matrix. -/
inductive MatrixModifier where
  | identity
  | inverse
  | transpose
  | inverseTranspose
deriving DecidableEq, Repr, Inhabited

/-- A property of a material, or of its product with a light. -/
inductive MaterialProperty where
  | ambient
  | diffuse
  | specular
  | emission
  | shininess
deriving DecidableEq, Repr, Inhabited

/-- A property of a light. -/
inductive LightProperty where
  | ambient
  | diffuse
  | specular
  | position
  | attenuation
  | spotDirection
  | half
deriving DecidableEq, Repr, Inhabited

/-- One vector of the fixed pipeline's state. -/
inductive StateBinding where
  | matrixRow (matrix : MatrixName) (modifier : MatrixModifier) (row : Nat)
  | material (face : Face) (property : MaterialProperty)
  | light (light : Nat) (property : LightProperty)
  | lightModelAmbient
  | lightModelSceneColor (face : Face)
  | lightProduct (light : Nat) (face : Face) (property : MaterialProperty)
  | fogColor
  | fogParams
  | clipPlane (plane : Nat)
  | pointSize
  | pointAttenuation
  | texEnvColor (unit : Nat)
  | depthRange
deriving DecidableEq, Repr, Inhabited

/-- Where a parameter vector comes from: a constant, the pipeline's state, the bank that all
programs share, or the program's own bank. -/
inductive ParamBinding where
  | constant (value : Vector4)
  | state (binding : StateBinding)
  | env (n : Nat)
  | localParam (n : Nat)
deriving DecidableEq, Inhabited

end ShaderAssembly
