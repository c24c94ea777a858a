import Mathlib.Algebra.Order.Field.Basic
import Mathlib.Tactic.NormNum
import ShaderAssembly.Model
/-!
# Vectors over a field

* `Vec4`: vectors of four components, and their list;
* `Single.value`: the number that a finite single stands for;
* `Builtins`: the functions that no law fixes.

Programs and shaders are both read over exact numbers, so that they can be compared.
-/

namespace ShaderAssembly

variable {K : Type}

/-! ## Vectors -/

/-- A vector of four components. -/
abbrev Vec4 (K : Type) : Type := Component → K

namespace Vec4

/-- The vector of four numbers. -/
def of (x y z w : K) : Vec4 K
  | .x => x
  | .y => y
  | .z => z
  | .w => w

theorem of_self (v : Vec4 K) : of (v .x) (v .y) (v .z) (v .w) = v := by
  funext c
  cases c <;> rfl

/-- The components in order. -/
def toList (v : Vec4 K) : List K := [v .x, v .y, v .z, v .w]

theorem toList_getElem? (v : Vec4 K) (c : Component) : v.toList[c.index]? = some (v c) := by
  cases c <;> rfl

end Vec4

/-- The component that stands in a place of a swizzle. -/
def Swizzle.at (s : Swizzle) : Component → Component
  | .x => s.x
  | .y => s.y
  | .z => s.z
  | .w => s.w

/-- The number in a place of a constant vector. -/
def Vector4.at (v : Vector4) : Component → Single
  | .x => v.x
  | .y => v.y
  | .z => v.z
  | .w => v.w

/-- The selection in a place of an extended swizzle. -/
def ExtendedSwizzle.at (s : ExtendedSwizzle) : Component → SignedSelection
  | .x => s.x
  | .y => s.y
  | .z => s.z
  | .w => s.w

/-! ## Numbers -/

variable [Field K]

/-- The number that a finite single stands for. -/
def Single.value : Single → K
  | .finite negative m e => (if negative then -1 else 1) * (m * 2 ^ e)
  | _ => 0

theorem Single.value_zero : (Single.zero false).value = (0 : K) := by
  simp [Single.zero, Single.value]

theorem Single.value_negate (v : Single) : v.negate.value = -(v.value : K) := by
  cases v with
  | nan => simp [Single.negate, Single.value]
  | infinite negative => simp [Single.negate, Single.value]
  | finite negative m e => cases negative <;> simp [Single.negate, Single.value]

variable [LinearOrder K] [IsStrictOrderedRing K]

theorem Single.value_one : Single.one.value = (1 : K) := by
  have h : Single.one = .finite false (2 ^ 23) (-23) := by decide
  rw [h, Single.value]
  norm_num

theorem Single.value_128 : (Single.ofNat 128).value = (128 : K) := by
  have h : Single.ofNat 128 = .finite false (2 ^ 23) (-16) := by decide
  rw [h, Single.value]
  norm_num

/-! ## Functions without laws -/

/-- Functions that both languages have and of which nothing is assumed. A texture is read at the
coordinates that its shape uses, and may have its level of detail shifted. -/
structure Builtins (K : Type) where
  exp2 : K → K
  log2 : K → K
  sin : K → K
  cos : K → K
  inversesqrt : K → K
  pow : K → K → K
  floor : K → K
  truncate : K → Int
  texture : TextureTarget → Nat → List K → Vec4 K
  textureBiased : TextureTarget → Nat → List K → K → Vec4 K
  fixedPosition : Vec4 K

end ShaderAssembly
