import ShaderAssembly.Proofs.Meaning.Vector
import ShaderAssembly.Proofs.WellFormed
/-!
# What programs mean

* `Machine`: what the registers of a program hold;
* `Source.vector`, `Source.scalar`: the operands of an instruction;
* `Instruction.result`: what an instruction computes, by its defining equation;
* `Instruction.effect`: the machine behind an instruction, unless it discards the fragment.
-/

namespace ShaderAssembly

variable {K : Type} [Field K]

/-! ## Machines -/

/-- What the registers of a program hold: its variables by place, the places of its arrays, address
registers, attributes, and results. A point size is held by its variable. -/
structure Machine (K : Type) where
  vectors : Nat → Vec4 K
  arrays : Nat → Nat → Vec4 K
  addresses : Nat → Int
  attributes : InputBinding → Vec4 K
  results : OutputBinding → Vec4 K

/-- The vector that a register holds. -/
def Machine.read (M : Machine K) (m : Model) : Register → Vec4 K
  | .whole i =>
    match kindAt m.vars i with
    | some (.input b) => M.attributes b
    | _ => M.vectors i
  | .element i n => M.arrays i n
  | .relative i addr offset => M.arrays i (M.addresses addr + offset).toNat
  | .literal v => fun c => (v.at c).value

/-- A relative place lies inside its array. -/
def Machine.InRange (M : Machine K) (m : Model) : Register → Prop
  | .relative i addr offset => ∃ items, kindAt m.vars i = some (.paramArray items) ∧
      0 ≤ M.addresses addr + offset ∧ M.addresses addr + offset < items.length
  | _ => True

/-- A number with its sign. -/
def withSign (negate : Bool) (x : K) : K := if negate then -x else x

/-- A source as a vector: swizzled first, and negated then. -/
def Source.vector (M : Machine K) (m : Model) (s : Source) : Vec4 K :=
  fun c => withSign s.negate (M.read m s.register (s.swizzle.at c))

/-- A source as a scalar: the first component of its swizzle. -/
def Source.scalar (M : Machine K) (m : Model) (s : Source) : K :=
  withSign s.negate (M.read m s.register s.swizzle.first)

/-- The number that a selection picks. -/
def Selection.pick (v : Vec4 K) : Selection → K
  | .zero => 0
  | .one => 1
  | .component k => v k

/-- A source through an extended swizzle, where the signs of a place and of the source cancel. -/
def Source.extended (M : Machine K) (m : Model) (e : ExtendedSwizzle) (s : Source) : Vec4 K :=
  fun c => withSign ((e.at c).negate != s.negate) ((e.at c).select.pick (M.read m s.register))

/-! ## Instructions -/

section Instructions

variable (B : Builtins K) (M : Machine K) (m : Model) (i : Instruction)

/-- The vector at a place among the sources. -/
def Instruction.vector (n : Nat) : Vec4 K :=
  match i.sources[n]? with
  | some s => s.vector M m
  | none => fun _ => 0

/-- The scalar at a place among the sources. -/
def Instruction.scalar (n : Nat) : K :=
  match i.sources[n]? with
  | some s => s.scalar M m
  | none => 0

/-- The coordinates of a vector that a texture of a shape uses. -/
def coordinates (target : TextureTarget) (v : Vec4 K) : List K :=
  match target with
  | .tex1D => [v .x]
  | .tex2D | .rect => [v .x, v .y]
  | .tex3D | .cube => [v .x, v .y, v .z]

variable [LinearOrder K]

/-- The components of a lighting coefficient. -/
def lighting (v : Vec4 K) : Vec4 K :=
  .of 1 (max (v .x) 0)
    (if 0 < v .x then B.pow (max (v .y) 0) (min (max (v .w) (-128)) 128) else 0) 1

/-- **What an instruction computes.** Components that the language leaves open are zero. -/
def Instruction.result : Vec4 K :=
  let a := i.vector M m 0
  let b := i.vector M m 1
  let c := i.vector M m 2
  let s := i.scalar M m 0
  match i.opcode with
  | .abs => fun k => |a k|
  | .add => fun k => a k + b k
  | .cmp => fun k => if a k < 0 then b k else c k
  | .cos => fun _ => B.cos s
  | .dp3 => fun _ => a .x * b .x + a .y * b .y + a .z * b .z
  | .dp4 => fun _ => a .x * b .x + a .y * b .y + a .z * b .z + a .w * b .w
  | .dph => fun _ => a .x * b .x + a .y * b .y + a .z * b .z + b .w
  | .dst => .of 1 (a .y * b .y) (a .z) (b .w)
  | .ex2 => fun _ => B.exp2 s
  | .exp => .of (B.exp2 (B.floor s)) (s - B.floor s) (B.exp2 s) 1
  | .flr => fun k => B.floor (a k)
  | .frc => fun k => a k - B.floor (a k)
  | .lg2 => fun _ => B.log2 s
  | .lit => lighting B a
  | .log =>
    .of (B.floor (B.log2 |s|)) (|s| / B.exp2 (B.floor (B.log2 |s|))) (B.log2 |s|) 1
  | .lrp => fun k => a k * b k + (1 - a k) * c k
  | .mad => fun k => a k * b k + c k
  | .max => fun k => max (a k) (b k)
  | .min => fun k => min (a k) (b k)
  | .mov => a
  | .mul => fun k => a k * b k
  | .pow => fun _ => B.pow s (i.scalar M m 1)
  | .rcp => fun _ => 1 / s
  | .rsq => fun _ => B.inversesqrt |s|
  | .scs => .of (B.cos s) (B.sin s) 0 0
  | .sge => fun k => if b k ≤ a k then 1 else 0
  | .sin => fun _ => B.sin s
  | .slt => fun k => if a k < b k then 1 else 0
  | .sub => fun k => a k - b k
  | .swz =>
    match i.extended, i.sources[0]? with
    | some e, some s => s.extended M m e
    | _, _ => fun _ => 0
  | .xpd => .of (a .y * b .z - a .z * b .y) (a .z * b .x - a .x * b .z)
      (a .x * b .y - a .y * b .x) 0
  | .tex =>
    match i.texture with
    | some t => B.texture t.target t.unit (coordinates t.target a)
    | none => fun _ => 0
  | .txb =>
    match i.texture with
    | some t => B.textureBiased t.target t.unit (coordinates t.target a) (a .w)
    | none => fun _ => 0
  | .txp =>
    match i.texture with
    | some t => B.texture t.target t.unit (coordinates t.target fun k => a k / a .w)
    | none => fun _ => 0
  | .arl | .kil => fun _ => 0

/-- What an instruction computes, clamped if the instruction says so. -/
def Instruction.saturated : Vec4 K :=
  fun k => if i.saturate then min (max (i.result B M m k) 0) 1 else i.result B M m k

/-- The vector with some components replaced. -/
def WriteMask.merge (mask : WriteMask) (new old : Vec4 K) : Vec4 K :=
  fun k => if mask.contains k then new k else old k

/-- What the destination that a variable stands for holds. -/
def Machine.target (var : Nat) : Vec4 K :=
  match kindAt m.vars var with
  | some .temporary | some (.output .pointSize) => M.vectors var
  | some (.output b) => M.results b
  | _ => fun _ => 0

/-- The machine with another vector in the destination that a variable stands for. -/
def Machine.put (var : Nat) (v : Vec4 K) : Machine K :=
  match kindAt m.vars var with
  | some .temporary | some (.output .pointSize) =>
    { M with vectors := Function.update M.vectors var v }
  | some (.output b) => { M with results := Function.update M.results b v }
  | _ => M

/-- The machine with some components written to a destination. -/
def Machine.write (d : Destination) (v : Vec4 K) : Machine K :=
  M.put m d.var (d.mask.merge v (M.target m d.var))

/-- The machine with a new value in an address register. -/
def Machine.writeAddress (var : Nat) (x : Int) : Machine K :=
  { M with addresses := Function.update M.addresses var x }

/-- **The machine behind an instruction**; `none` if it discards the fragment. -/
def Instruction.effect : Option (Machine K) :=
  match i.opcode, i.destination with
  | .kil, _ => if Component.all.any fun k => i.vector M m 0 k < 0 then none else some M
  | .arl, some d => some (M.writeAddress d.var (B.truncate (B.floor (i.scalar M m 0))))
  | _, some d => some (M.write m d (i.saturated B M m))
  | _, none => some M

end Instructions

end ShaderAssembly
