import ShaderAssembly.Model
/-!
# Names in a shader

* `userName`: the name of a declared variable, escaped so that distinct names stay distinct, no name
  has two underscores in a row, and none is one of the generated names;
* `variableName`: the name of the variable at a place.
-/

namespace ShaderAssembly.Glsl

/-- One character of a declared name: `_` is written `_u`, and `$` is written `_d`. -/
def escape (c : Char) : List Char :=
  if c = '_' then ['_', 'u'] else if c = '$' then ['_', 'd'] else [c]

/-- The name of a declared variable. Generated names never start with `arb_u`. -/
def userName (name : String) : String := "arb_u" ++ String.ofList (name.toList.flatMap escape)

/-- The name of the variable at a place. -/
def variableName (m : Model) (i : Nat) : String :=
  match m.vars[i]? with
  | some v => if v.implicit then s!"arb_implicit{i}" else userName v.name
  | none => s!"arb_implicit{i}"

/-- The name of the sampler at a unit. -/
def samplerName (unit : Nat) : String := s!"arb_tex{unit}"

/-- The name of the bank that all programs of a kind share. -/
def envName : ProgramKind → String
  | .vertex => "arb_vp_env"
  | .fragment => "arb_fp_env"

/-- The name of a program's own bank. -/
def localName : ProgramKind → String
  | .vertex => "arb_vp_local"
  | .fragment => "arb_fp_local"

/-- The variable that stands for the fog coordinate until a vertex program ends. -/
def fogCoordName : String := "arb_FogFragCoord"

/-- The variable that stands for the depth until a fragment program ends. -/
def depthName : String := "arb_FragDepth"

end ShaderAssembly.Glsl
