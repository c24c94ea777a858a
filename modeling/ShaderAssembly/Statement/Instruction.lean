import ShaderAssembly.Statement.Operand
/-!
# Instructions

* `Instruction.ofWord?`: the opcode of a word, and whether its result is clamped;
* `Parse.instruction`: one instruction.
-/

namespace ShaderAssembly

/-- The opcode that a word names in programs of a kind, and whether the result is clamped. Only
fragment programs clamp, and `KIL` has nothing to clamp. -/
def Instruction.ofWord? (kind : ProgramKind) (text : String) : Option (Opcode × Bool) :=
  let (mnemonic, saturate) :=
    match kind, withoutSaturation? text with
    | .fragment, some base => (base, true)
    | _, _ => (text, false)
  match Opcode.ofMnemonic? mnemonic with
  | none => none
  | some opcode =>
    if opcode.isAvailable kind && !(saturate && opcode == .kil) then some (opcode, saturate)
    else none

namespace Parse

variable (kind : ProgramKind) (limits : Limits)

/-- Reads one source of an instruction. -/
def operand (opcode : Opcode) : Parse Source := do
  let first ← Scan.next
  let s ← source kind limits first (opcode == .swz)
  match opcode, s.register with
  | .arl, .relative _ _ _ => refuse .relativeAddressSource first.offset
  | _, _ => return s

/-- Reads `n` more sources, each behind a comma. -/
def moreOperands (opcode : Opcode) : Nat → Parse (List Source)
  | 0 => return []
  | n + 1 => do
    Scan.expect .comma "','"
    let s ← operand kind limits opcode
    return s :: (← moreOperands opcode n)

/-- Reads `n` sources with commas between them. -/
def operands (opcode : Opcode) : Nat → Parse (List Source)
  | 0 => return []
  | n + 1 => do
    let s ← operand kind limits opcode
    return s :: (← moreOperands kind limits opcode n)

/-- Reads the destination of an instruction that has one, and the comma behind it. -/
def destination? (opcode : Opcode) : Parse (Option Destination) := do
  if !opcode.shape.hasDestination then return none
  let d ← destination kind limits (← Scan.next) opcode
  Scan.expect .comma "','"
  return some d

/-- Reads the texture of an instruction that has one, behind a comma. -/
def texture? (opcode : Opcode) : Parse (Option TextureOperand) := do
  if !opcode.isTexture then return none
  Scan.expect .comma "','"
  return some (← texture limits)

/-- Reads the extended swizzle of an instruction that has one. -/
def extended? (opcode : Opcode) : Parse (Option ExtendedSwizzle) := do
  if opcode != .swz then return none
  return some (← Scan.extendedSwizzle kind)

/-- Reads an instruction from its mnemonic on. -/
def instruction (word : Token) : Parse Unit := do
  match Instruction.ofWord? kind word.text with
  | none => refuse (.unknownInstruction word.text kind) word.offset
  | some (opcode, saturate) =>
    if limits.maxInstructions ≤ (← draft).instructions.length then
      refuse (.tooManyInstructions limits.maxInstructions) word.offset
    let destination ← destination? kind limits opcode
    let sources ← operands kind limits opcode opcode.shape.sources
    let extended ← extended? kind opcode
    let texture ← texture? limits opcode
    Scan.expect .semicolon "';'"
    let i : Instruction :=
      { opcode, saturate, destination, sources, extended, texture, offset := word.offset }
    modify fun p => { p with draft := p.draft.push i }

end Parse

end ShaderAssembly
