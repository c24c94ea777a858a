import ShaderAssembly.Glsl.Expr
/-!
# Lines of a shader

* `Line`: a directive, a declaration or a statement;
* `Line.text`: its text, without indentation.
-/

namespace ShaderAssembly.Glsl

/-- A line of a shader. -/
inductive Line where
  | version
  | rectangleExtension
  | addressType
  | bank (name : String) (size : Nat)
  | sampler (type : String) (name : String)
  | openMain
  | declare (type : String) (name : String) (value : Expr)
  | declareArray (name : String) (items : List Expr)
  | assign (target value : Expr)
  | discardIf (condition : Expr)
  | closeMain
deriving DecidableEq, Inhabited

/-- The text of a line. -/
def Line.text : Line → String
  | version => "#version 120"
  | rectangleExtension => "#extension GL_ARB_texture_rectangle : enable"
  | addressType => "struct ARBAddress \x7b int x; \x7d;"
  | bank name size => s!"uniform vec4 {name}[{size}];"
  | sampler type name => s!"uniform {type} {name};"
  | openMain => "void main() \x7b"
  | declare type name value => s!"{type} {name} = {value.text};"
  | declareArray name items =>
    let values := ", ".intercalate (items.map Expr.text)
    s!"vec4 {name}[{items.length}] = vec4[{items.length}]({values});"
  | assign target value => s!"{target.text} = {value.text};"
  | discardIf condition => s!"if ({condition.text}) discard;"
  | closeMain => "\x7d"

end ShaderAssembly.Glsl
