import ShaderAssembly.Single.Decimal
/-!
# Shader expressions

* `Expr`: the expressions that shaders are made of;
* `Expr.text`: their text. Parentheses are part of an expression, so none are added.
-/

namespace ShaderAssembly.Glsl

/-- An operator between two operands. -/
inductive Operator where
  | add
  | sub
  | mul
  | div
  | greater
deriving DecidableEq, Repr, Inhabited

/-- The sign of an operator. -/
def Operator.text : Operator → String
  | add => "+"
  | sub => "-"
  | mul => "*"
  | div => "/"
  | greater => ">"

/-- An expression. A field is a member of a structure or a selection of components; functions take
up to four arguments. -/
inductive Expr where
  | number (v : Single)
  | whole (n : Nat)
  | name (s : String)
  | field (e : Expr) (selector : String)
  | element (e i : Expr)
  | negative (e : Expr)
  | group (e : Expr)
  | binary (op : Operator) (a b : Expr)
  | choose (condition a b : Expr)
  | call0 (f : String)
  | call1 (f : String) (a : Expr)
  | call2 (f : String) (a b : Expr)
  | call3 (f : String) (a b c : Expr)
  | call4 (f : String) (a b c d : Expr)
deriving DecidableEq, Inhabited

namespace Expr

/-- The text of an expression. -/
def text : Expr → String
  | number v => v.toText
  | whole n => toString n
  | name s => s
  | field e selector => e.text ++ "." ++ selector
  | element e i => e.text ++ "[" ++ i.text ++ "]"
  | negative e => "-" ++ e.text
  | group e => "(" ++ e.text ++ ")"
  | binary op a b => a.text ++ " " ++ op.text ++ " " ++ b.text
  | choose condition a b => condition.text ++ " ? " ++ a.text ++ " : " ++ b.text
  | call0 f => f ++ "()"
  | call1 f a => f ++ "(" ++ a.text ++ ")"
  | call2 f a b => f ++ "(" ++ a.text ++ ", " ++ b.text ++ ")"
  | call3 f a b c => f ++ "(" ++ a.text ++ ", " ++ b.text ++ ", " ++ c.text ++ ")"
  | call4 f a b c d =>
    f ++ "(" ++ a.text ++ ", " ++ b.text ++ ", " ++ c.text ++ ", " ++ d.text ++ ")"

/-- The number zero. -/
def zero : Expr := number (Single.zero false)

/-- The number one. -/
def one : Expr := number Single.one

/-- The vector with zero in all places. -/
def zeroVector : Expr := call1 "vec4" zero

/-- A vector given by its four places. -/
def vector (x y z w : Expr) : Expr := call4 "vec4" x y z w

/-- The element of an array at a fixed place. -/
def item (array : Expr) (n : Nat) : Expr := element array (whole n)

end Expr

end ShaderAssembly.Glsl
