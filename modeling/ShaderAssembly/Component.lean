/-!
# Components

Registers hold vectors of four components, named `x`, `y`, `z` and `w`, and in fragment programs
also `r`, `g`, `b` and `a`.

* `Swizzle`: which component stands in each place of a source;
* `WriteMask`: which components an instruction writes;
* `ExtendedSwizzle`: for each place zero, one or a component, with a sign.
-/

namespace ShaderAssembly

/-- A component of a vector. -/
inductive Component where
  | x
  | y
  | z
  | w
deriving DecidableEq, Repr, Inhabited

namespace Component

/-- The components in order. -/
def all : List Component := [x, y, z, w]

/-- The place of a component in a vector. -/
def index : Component → Nat
  | x => 0
  | y => 1
  | z => 2
  | w => 3

/-- The letter of a component. -/
def letter : Component → Char
  | x => 'x'
  | y => 'y'
  | z => 'z'
  | w => 'w'

/-- The component of a letter; the color letters count only where they are allowed. -/
def ofLetter? (colors : Bool) (c : Char) : Option Component :=
  if c = 'x' then some x
  else if c = 'y' then some y
  else if c = 'z' then some z
  else if c = 'w' then some w
  else if !colors then none
  else if c = 'r' then some x
  else if c = 'g' then some y
  else if c = 'b' then some z
  else if c = 'a' then some w
  else none

/-- The letters of a list of components. -/
def text (cs : List Component) : String := String.ofList (cs.map letter)

end Component

/-- The component that a source shows in each of its four places. -/
structure Swizzle where
  x : Component
  y : Component
  z : Component
  w : Component
deriving DecidableEq, Repr, Inhabited

namespace Swizzle

/-- Every component in its own place. -/
def identity : Swizzle := ⟨.x, .y, .z, .w⟩

/-- One component in all places. -/
def replicate (c : Component) : Swizzle := ⟨c, c, c, c⟩

/-- The components by place. -/
def toList (s : Swizzle) : List Component := [s.x, s.y, s.z, s.w]

/-- The component that stands for the whole source where a scalar is wanted. -/
def first (s : Swizzle) : Component := s.x

/-- The swizzle as a selector. -/
def text (s : Swizzle) : String := Component.text s.toList

end Swizzle

/-- The components that an instruction writes. -/
structure WriteMask where
  x : Bool := false
  y : Bool := false
  z : Bool := false
  w : Bool := false
deriving DecidableEq, Repr, Inhabited

namespace WriteMask

/-- No component. -/
def none : WriteMask := {}

/-- Every component. -/
def all : WriteMask := ⟨true, true, true, true⟩

/-- The component `x` alone. -/
def onlyX : WriteMask := ⟨true, false, false, false⟩

/-- Whether a component is written. -/
def contains (m : WriteMask) : Component → Bool
  | .x => m.x
  | .y => m.y
  | .z => m.z
  | .w => m.w

/-- The mask with one more component. -/
def insert (m : WriteMask) : Component → WriteMask
  | .x => { m with x := true }
  | .y => { m with y := true }
  | .z => { m with z := true }
  | .w => { m with w := true }

/-- The mask of a list of components. -/
def ofList (cs : List Component) : WriteMask := cs.foldl insert none

/-- The mask whose components are the lowest four bits of a number, `x` first. -/
def ofBits (n : Nat) : WriteMask :=
  ⟨n.testBit 0, n.testBit 1, n.testBit 2, n.testBit 3⟩

/-- The components that are written, in order. -/
def components (m : WriteMask) : List Component := Component.all.filter m.contains

/-- The mask as a selector. -/
def text (m : WriteMask) : String := Component.text m.components

end WriteMask

/-- What stands in one place of an extended swizzle. -/
inductive Selection where
  | zero
  | one
  | component (c : Component)
deriving DecidableEq, Repr, Inhabited

/-- One place of an extended swizzle. -/
structure SignedSelection where
  negate : Bool
  select : Selection
deriving DecidableEq, Repr, Inhabited

/-- Zero, one or a component for each of four places, with a sign. -/
structure ExtendedSwizzle where
  x : SignedSelection
  y : SignedSelection
  z : SignedSelection
  w : SignedSelection
deriving DecidableEq, Repr, Inhabited

/-- The selections by place. -/
def ExtendedSwizzle.toList (s : ExtendedSwizzle) : List SignedSelection := [s.x, s.y, s.z, s.w]

end ShaderAssembly
