import ShaderAssembly.Binding
import ShaderAssembly.Component
import ShaderAssembly.Opcode
import ShaderAssembly.SortedMap
/-!
# Programs

* `Register`, `Source`, `Destination`, `Instruction`: what a program does;
* `Variable`: what its registers are, in the order in which the text brings them up;
* `Model`: a whole program.

Registers name variables by their place in the list.
-/

namespace ShaderAssembly

/-! ## Instructions -/

/-- A register that an instruction reads. A relative one is the element of an array at the address
register's value plus an offset. -/
inductive Register where
  | whole (var : Nat)
  | element (var : Nat) (index : Nat)
  | relative (var : Nat) (addr : Nat) (offset : Int)
  | literal (value : Vector4)
deriving DecidableEq, Inhabited

/-- An operand that an instruction reads. -/
structure Source where
  negate : Bool := false
  register : Register
  swizzle : Swizzle := .identity
deriving DecidableEq, Inhabited

/-- The operand that an instruction writes. -/
structure Destination where
  var : Nat
  mask : WriteMask := .all
deriving DecidableEq, Inhabited

/-- The shape of a texture. -/
inductive TextureTarget where
  | tex1D
  | tex2D
  | tex3D
  | cube
  | rect
deriving DecidableEq, Repr, Inhabited

namespace TextureTarget

/-- The shapes of textures. -/
def all : List TextureTarget := [tex1D, tex2D, tex3D, cube, rect]

/-- The name of a shape in a program. -/
def name : TextureTarget → String
  | tex1D => "1D"
  | tex2D => "2D"
  | tex3D => "3D"
  | cube => "CUBE"
  | rect => "RECT"

/-- The shape of a name. -/
def ofName? (name : String) : Option TextureTarget := all.find? fun t => t.name == name

end TextureTarget

/-- The texture that an instruction reads. -/
structure TextureOperand where
  unit : Nat
  target : TextureTarget
deriving DecidableEq, Repr, Inhabited

/-- An instruction, with the byte offset of its opcode. Only `SWZ` has an extended swizzle, and only
the texture instructions have a texture. -/
structure Instruction where
  opcode : Opcode
  saturate : Bool := false
  destination : Option Destination := none
  sources : List Source := []
  extended : Option ExtendedSwizzle := none
  texture : Option TextureOperand := none
  offset : Nat := 0
deriving DecidableEq, Inhabited

/-! ## Variables -/

/-- What a variable stands for. -/
inductive VariableKind where
  | temporary
  | address
  | input (binding : InputBinding)
  | param (binding : ParamBinding)
  | paramArray (items : List ParamBinding)
  | output (binding : OutputBinding)
deriving DecidableEq, Inhabited

namespace VariableKind

/-- Whether a source may name the variable. -/
def isReadable : VariableKind → Bool
  | temporary | input _ | param _ | paramArray _ => true
  | address | output _ => false

/-- Whether the destination of an ordinary instruction may name the variable. -/
def isWritable : VariableKind → Bool
  | temporary | output _ => true
  | address | input _ | param _ | paramArray _ => false

end VariableKind

/-- A variable: declared under a name, or implied by a binding that an operand spells out, and then
named by the text of the binding. -/
structure Variable where
  name : String
  kind : VariableKind
  offset : Nat := 0
  implicit : Bool := false
deriving DecidableEq, Inhabited

/-! ## Programs -/

/-- How fog is mixed into the color. -/
inductive FogMode where
  | none
  | exp
  | exp2
  | linear
deriving DecidableEq, Repr, Inhabited

/-- Features of a program that take effect outside its instructions. -/
structure SpecialCases where
  writesFogCoord : Bool := false
  writesDepth : Bool := false
  fog : FogMode := .none
  positionInvariant : Bool := false
deriving DecidableEq, Repr, Inhabited

/-- The shape of the texture at each unit that a program reads. -/
abbrev Samplers := SortedMap Nat TextureTarget

/-- A program. -/
structure Model where
  kind : ProgramKind
  vars : List Variable := []
  instructions : List Instruction := []
  special : SpecialCases := {}
  samplers : Samplers := .empty
deriving DecidableEq, Inhabited

end ShaderAssembly
