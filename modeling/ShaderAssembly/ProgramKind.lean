/-!
# Program kinds

A program runs once per vertex or once per fragment; its text says which by a ten-byte signature.
-/

namespace ShaderAssembly

/-- What a program is run for. -/
inductive ProgramKind where
  | vertex
  | fragment
deriving DecidableEq, Repr, Inhabited

namespace ProgramKind

/-- The kind that a flag asks for. -/
def ofVertexFlag (vertex : Bool) : ProgramKind := if vertex then .vertex else .fragment

/-- The words that open a program of this kind. -/
def signature : ProgramKind → String
  | vertex => "!!ARBvp1.0"
  | fragment => "!!ARBfp1.0"

/-- The kind with the other signature. -/
def other : ProgramKind → ProgramKind
  | vertex => fragment
  | fragment => vertex

/-- The kind's name in messages. -/
def name : ProgramKind → String
  | vertex => "vertex"
  | fragment => "fragment"

end ProgramKind

end ShaderAssembly
