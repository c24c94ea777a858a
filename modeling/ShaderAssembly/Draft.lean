import ShaderAssembly.Limits
import ShaderAssembly.Model
import ShaderAssembly.Statement.Fault
/-!
# Drafts

A draft is a program as far as it has been read.

* `Draft.lookup?`: the variable of a declared name or of another name for it;
* `Draft.declare`, `Draft.nameAlso`: a new name;
* `Draft.implied?`, `Draft.imply`: the variable of a binding that an operand spells out;
* `Draft.sample`: a texture read.
-/

namespace ShaderAssembly

/-- A program as far as it has been read, with the variable that each name stands for, and with
counts of the variables whose number is limited. -/
structure Draft where
  vars : List Variable := []
  instructions : List Instruction := []
  special : SpecialCases := {}
  samplers : Samplers := .empty
  symbols : List (String × Nat) := []
  precisionHint : Bool := false
  temporaryCount : Nat := 0
  addressCount : Nat := 0
deriving DecidableEq, Inhabited

/-! ## Reserved words -/

/-- The words other than mnemonics that name no variable. -/
def reservedWords : List String :=
  ["ADDRESS", "ALIAS", "ATTRIB", "END", "OPTION", "OUTPUT", "PARAM", "TEMP", "fragment",
   "program", "result", "state", "texture", "vertex"]

/-- The text before a final `_SAT`, if it ends in one. -/
def withoutSaturation? (text : String) : Option String :=
  match text.toList.reverse with
  | 'T' :: 'A' :: 'S' :: '_' :: cs => some (String.ofList cs.reverse)
  | _ => none

/-- A text without any `_SAT` at its end, read backwards. -/
def dropSaturations : List Char → List Char
  | 'T' :: 'A' :: 'S' :: '_' :: cs => dropSaturations cs
  | cs => cs

/-- Whether a word names no variable: a reserved word, or a mnemonic with any number of `_SAT`. -/
def isReserved (name : String) : Bool :=
  reservedWords.contains name ||
    (Opcode.ofMnemonic? (String.ofList (dropSaturations name.toList.reverse).reverse)).isSome

namespace Draft

/-! ## Names -/

/-- The place of the variable that a name stands for, and the variable. -/
def lookup? (d : Draft) (name : String) : Option (Nat × Variable) := do
  let i ← d.symbols.lookup name
  let v ← d.vars[i]?
  return (i, v)

/-- Refuses a name that is reserved or taken. -/
def checkName (d : Draft) (name : String) : Except Cause Unit :=
  if isReserved name then throw (.reserved name)
  else if (d.symbols.lookup name).isSome then throw (.redeclared name)
  else pure ()

/-- Refuses one more variable of a kind whose number is limited. -/
def checkCount (limits : Limits) (d : Draft) : VariableKind → Except Cause Unit
  | .temporary =>
    if limits.maxTemporaries ≤ d.temporaryCount then
      throw (.tooManyTemporaries limits.maxTemporaries)
    else pure ()
  | .address =>
    if limits.maxAddressRegisters ≤ d.addressCount then
      throw (.tooManyAddressRegisters limits.maxAddressRegisters)
    else pure ()
  | _ => pure ()

/-- Declares a variable under a new name. -/
def declare (limits : Limits) (d : Draft) (name : String) (kind : VariableKind) (offset : Nat) :
    Except Cause Draft := do
  d.checkName name
  d.checkCount limits kind
  return { d with
    vars := d.vars ++ [{ name, kind, offset }]
    symbols := (name, d.vars.length) :: d.symbols
    temporaryCount := if kind = .temporary then d.temporaryCount + 1 else d.temporaryCount
    addressCount := if kind = .address then d.addressCount + 1 else d.addressCount }

/-- Gives the variable at place `i` one more name. -/
def nameAlso (d : Draft) (name : String) (i : Nat) : Except Cause Draft := do
  d.checkName name
  return { d with symbols := (name, i) :: d.symbols }

/-- The place of the implicit variable of a kind, if there is one already. -/
def implied? (d : Draft) (kind : VariableKind) : Option Nat :=
  d.vars.findIdx? fun v => v.implicit && v.kind == kind

/-- The draft with an implicit variable of a kind, under the text of its binding. -/
def imply (d : Draft) (text : String) (kind : VariableKind) (offset : Nat) : Draft :=
  { d with vars := d.vars ++ [{ name := text, kind, offset, implicit := true }] }

/-! ## Instructions -/

/-- Notes that a texture of the given shape is read at a unit. A unit keeps its shape. -/
def sample (d : Draft) (t : TextureOperand) : Except Cause Draft :=
  let noted := { d with samplers := d.samplers.insert t.unit t.target }
  match d.samplers.get? t.unit with
  | none => pure noted
  | some target => if target = t.target then pure noted else throw (.conflictingTargets t.unit)

/-- Notes that a variable of a kind is written. -/
def write (d : Draft) (kind : VariableKind) : Except Cause Draft :=
  match kind with
  | .output .position =>
    if d.special.positionInvariant then throw .positionWritten else pure d
  | .output .fogCoord => pure { d with special := { d.special with writesFogCoord := true } }
  | .output .fragDepth => pure { d with special := { d.special with writesDepth := true } }
  | _ => pure d

/-- Adds an instruction. -/
def push (d : Draft) (i : Instruction) : Draft := { d with instructions := d.instructions ++ [i] }

/-- The draft as a whole program. -/
def toModel (kind : ProgramKind) (d : Draft) : Model where
  kind := kind
  vars := d.vars
  instructions := d.instructions
  special := d.special
  samplers := d.samplers

end Draft

end ShaderAssembly
