import ShaderAssembly.ProgramKind
/-!
# Opcodes

* `Opcode.shape`: the mnemonic of an opcode, its operands, and the programs that have it;
* `Opcode.ofMnemonic?`: the opcode of a mnemonic.
-/

namespace ShaderAssembly

/-- What an instruction does. -/
inductive Opcode where
  | abs | add | arl | cmp | cos | dp3 | dp4 | dph | dst | ex2 | exp | flr
  | frc | kil | lg2 | lit | log | lrp | mad | max | min | mov | mul | pow
  | rcp | rsq | scs | sge | sin | slt | sub | swz | tex | txb | txp | xpd
deriving DecidableEq, Repr, Inhabited

/-- The programs that have an opcode. -/
inductive Availability where
  | both
  | vertexOnly
  | fragmentOnly
deriving DecidableEq, Repr, Inhabited

/-- Whether programs of a kind have the opcode. -/
def Availability.includes : Availability → ProgramKind → Bool
  | both, _ => true
  | vertexOnly, kind => kind == .vertex
  | fragmentOnly, kind => kind == .fragment

/-- The mnemonic and the operands of an opcode. Scalar sources are read through the first component
of their swizzle. -/
structure OpcodeShape where
  mnemonic : String
  sources : Nat
  hasDestination : Bool
  availability : Availability
  scalarSources : Bool
deriving DecidableEq, Repr, Inhabited

namespace Opcode

/-- All opcodes, by mnemonic. -/
def all : List Opcode :=
  [abs, add, arl, cmp, cos, dp3, dp4, dph, dst, ex2, exp, flr,
   frc, kil, lg2, lit, log, lrp, mad, max, min, mov, mul, pow,
   rcp, rsq, scs, sge, sin, slt, sub, swz, tex, txb, txp, xpd]

/-- The mnemonic and the operands of an opcode. -/
def shape : Opcode → OpcodeShape
  | abs => ⟨"ABS", 1, true, .both, false⟩
  | add => ⟨"ADD", 2, true, .both, false⟩
  | arl => ⟨"ARL", 1, true, .vertexOnly, true⟩
  | cmp => ⟨"CMP", 3, true, .fragmentOnly, false⟩
  | cos => ⟨"COS", 1, true, .fragmentOnly, true⟩
  | dp3 => ⟨"DP3", 2, true, .both, false⟩
  | dp4 => ⟨"DP4", 2, true, .both, false⟩
  | dph => ⟨"DPH", 2, true, .both, false⟩
  | dst => ⟨"DST", 2, true, .both, false⟩
  | ex2 => ⟨"EX2", 1, true, .both, true⟩
  | exp => ⟨"EXP", 1, true, .vertexOnly, true⟩
  | flr => ⟨"FLR", 1, true, .both, false⟩
  | frc => ⟨"FRC", 1, true, .both, false⟩
  | kil => ⟨"KIL", 1, false, .fragmentOnly, false⟩
  | lg2 => ⟨"LG2", 1, true, .both, true⟩
  | lit => ⟨"LIT", 1, true, .both, false⟩
  | log => ⟨"LOG", 1, true, .vertexOnly, true⟩
  | lrp => ⟨"LRP", 3, true, .fragmentOnly, false⟩
  | mad => ⟨"MAD", 3, true, .both, false⟩
  | max => ⟨"MAX", 2, true, .both, false⟩
  | min => ⟨"MIN", 2, true, .both, false⟩
  | mov => ⟨"MOV", 1, true, .both, false⟩
  | mul => ⟨"MUL", 2, true, .both, false⟩
  | pow => ⟨"POW", 2, true, .both, true⟩
  | rcp => ⟨"RCP", 1, true, .both, true⟩
  | rsq => ⟨"RSQ", 1, true, .both, true⟩
  | scs => ⟨"SCS", 1, true, .fragmentOnly, true⟩
  | sge => ⟨"SGE", 2, true, .both, false⟩
  | sin => ⟨"SIN", 1, true, .fragmentOnly, true⟩
  | slt => ⟨"SLT", 2, true, .both, false⟩
  | sub => ⟨"SUB", 2, true, .both, false⟩
  | swz => ⟨"SWZ", 1, true, .both, false⟩
  | tex => ⟨"TEX", 1, true, .fragmentOnly, false⟩
  | txb => ⟨"TXB", 1, true, .fragmentOnly, false⟩
  | txp => ⟨"TXP", 1, true, .fragmentOnly, false⟩
  | xpd => ⟨"XPD", 2, true, .both, false⟩

/-- The name of an opcode. -/
def mnemonic (op : Opcode) : String := op.shape.mnemonic

/-- The opcode of a mnemonic, without any suffix. -/
def ofMnemonic? (name : String) : Option Opcode := all.find? fun op => op.mnemonic == name

/-- Whether programs of a kind have the opcode. -/
def isAvailable (op : Opcode) (kind : ProgramKind) : Bool := op.shape.availability.includes kind

/-- Whether the opcode reads a texture. -/
def isTexture (op : Opcode) : Bool := op == tex || op == txb || op == txp

end Opcode

end ShaderAssembly
