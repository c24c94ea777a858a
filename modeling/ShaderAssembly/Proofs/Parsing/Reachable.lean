import ShaderAssembly.Proofs.Parsing.Characters
import ShaderAssembly.Proofs.Parsing.Program
/-!
# Every state of a reader

A reader may stop anywhere: at the end of the program, at a statement that was refused half way, or
before the next one. What it has collected until then fits together at each of these points.

* `ProgramReader.Reachable`: the states that steps and moves lead to, in any order;
* `Register.Readable`, `Destination.Writes`, `Instruction.Sound`: operands name registers of the
  right sort, and an instruction has the parts that its opcode asks for and no others;
* `Model.Sound`: all instructions are sound, constants are finite, and arrays are not empty;
* **`ProgramReader.sound_of_reachable`**: every state is sound.
-/

namespace ShaderAssembly

/-! ## States -/

/-- The states of a reader of some text, after any number of steps and moves. -/
inductive ProgramReader.Reachable (kind : ProgramKind) (limits : Limits) : ProgramReader → Prop
  | start (source : String) (start : Nat) : Reachable kind limits (.ofSource source start)
  | step {r : ProgramReader} : Reachable kind limits r → Reachable kind limits (r.step kind limits)
  | advance {r : ProgramReader} : Reachable kind limits r → Reachable kind limits r.advance

/-! ## Sound programs -/

/-- A register that an instruction of an opcode may read: a temporary, an attribute of the program's
kind or a single parameter; a place inside an array; in vertex programs, and not for `ARL`, a
computed place; or a finite constant. -/
def Register.Readable (m : Model) (opcode : Opcode) : Register → Prop
  | .whole i =>
    kindAt m.vars i = some .temporary ∨
      (∃ b, kindAt m.vars i = some (.input b) ∧ b.kind = m.kind) ∨
      ∃ b, kindAt m.vars i = some (.param b)
  | .element i n => ∃ items, kindAt m.vars i = some (.paramArray items) ∧ n < items.length
  | .relative i addr offset =>
    m.kind = .vertex ∧ opcode ≠ .arl ∧ (∃ items, kindAt m.vars i = some (.paramArray items)) ∧
      kindAt m.vars addr = some .address ∧ -64 ≤ offset ∧ offset ≤ 63
  | .literal v => v.IsFinite

/-- A destination that an instruction of an opcode may write: exactly for `ARL` the only component
of an address register, and otherwise a temporary or a result of the program's kind. -/
def Destination.Writes (m : Model) (opcode : Opcode) (d : Destination) : Prop :=
  d.mask ≠ .none ∧
    if opcode = .arl then kindAt m.vars d.var = some .address ∧ d.mask = .onlyX
    else kindAt m.vars d.var = some .temporary ∨
      ∃ b, kindAt m.vars d.var = some (.output b) ∧ b.kind = m.kind

/-- An instruction with the parts that its opcode asks for and no others. -/
structure Instruction.Sound (m : Model) (i : Instruction) : Prop where
  available : i.opcode.isAvailable m.kind = true
  saturate : i.saturate = true → m.kind = .fragment ∧ i.opcode ≠ .kil
  destination_isSome : i.destination.isSome = i.opcode.shape.hasDestination
  destination : ∀ d ∈ i.destination, d.Writes m i.opcode
  sources_length : i.sources.length = i.opcode.shape.sources
  sources : ∀ s ∈ i.sources, s.register.Readable m i.opcode
  extended_isSome : i.extended.isSome = true ↔ i.opcode = .swz
  extended_bare : i.extended.isSome = true → ∀ s ∈ i.sources, s.swizzle = .identity
  texture_isSome : i.texture.isSome = true ↔ i.opcode = .tex ∨ i.opcode = .txb ∨ i.opcode = .txp

/-- A parameter that is not a constant, or a finite one. -/
def ParamBinding.IsFinite : ParamBinding → Prop
  | .constant v => v.IsFinite
  | _ => True

/-- A program whose instructions are sound, whose constants are finite, and whose arrays are not
empty. -/
structure Model.Sound (m : Model) : Prop where
  instructions : ∀ i ∈ m.instructions, i.Sound m
  params : ∀ v ∈ m.vars, ∀ b, v.kind = .param b → b.IsFinite
  arrays : ∀ v ∈ m.vars, ∀ items, v.kind = .paramArray items →
    items ≠ [] ∧ ∀ b ∈ items, b.IsFinite

/-! ## Well-formed programs are sound -/

variable {kind : ProgramKind} {limits : Limits} {m : Model}

theorem ParamBinding.WellFormed.isFinite {b : ParamBinding} (h : b.WellFormed limits) :
    b.IsFinite := by
  cases b with
  | constant v => exact h
  | state b | env n | localParam n => trivial

theorem Source.WellFormed.readable {opcode : Opcode} {s : Source} (hm : m.WellFormed limits)
    (hs : s.WellFormed m.kind m.vars opcode) : s.register.Readable m opcode := by
  have hr := hs.register
  cases e : s.register with
  | whole i =>
    rw [e] at hr
    obtain ⟨k, hk, hv⟩ := hr
    cases k with
    | temporary => exact .inl hk
    | input b => exact .inr (.inl ⟨b, hk, hm.kindAt hk⟩)
    | param b => exact .inr (.inr ⟨b, hk⟩)
    | address | paramArray items | output b => cases hv
  | element i n =>
    rw [e] at hr
    exact hr
  | relative i addr offset =>
    rw [e] at hr
    exact ⟨hr.1, fun h => hs.direct h _ _ _ e, hr.2⟩
  | literal v =>
    rw [e] at hr
    exact hr

theorem Destination.WellFormed.writes {opcode : Opcode} {d : Destination} (hm : m.WellFormed limits)
    (hd : d.WellFormed m.vars m.special opcode) : d.Writes m opcode := by
  obtain ⟨k, hk, -, hd⟩ := hd
  unfold Destination.Writes
  by_cases harl : opcode = .arl
  · rw [if_pos harl] at hd ⊢
    obtain ⟨rfl, hmask⟩ := hd
    exact ⟨by rw [hmask]; decide, hk, hmask⟩
  · rw [if_neg harl] at hd ⊢
    refine ⟨hd.2, ?_⟩
    cases k with
    | temporary => exact .inl hk
    | output b => exact .inr ⟨b, hk, hm.kindAt hk⟩
    | address | input b | param b | paramArray items => exact nomatch hd.1

theorem Instruction.WellFormed.sound {i : Instruction} (hm : m.WellFormed limits)
    (hi : i.WellFormed limits m) : i.Sound m where
  available := hi.available
  saturate := hi.saturate
  destination_isSome := hi.destination_isSome
  destination d hd := (hi.destination d hd).writes hm
  sources_length := hi.sources_length
  sources s hs := (hi.sources s hs).readable hm
  extended_isSome := by simp [hi.extended_isSome]
  extended_bare h s hs := (hi.sources s hs).bare (by simpa [hi.extended_isSome] using h)
  texture_isSome := by simp [hi.texture_isSome, Opcode.isTexture, or_assoc]

theorem Model.WellFormed.sound (hm : m.WellFormed limits) : m.Sound where
  instructions i hi := (hm.instructions i hi).sound hm
  params v hv b hb := by
    have hk := (hm.vars v hv).kind
    rw [hb] at hk
    exact ParamBinding.WellFormed.isFinite hk
  arrays v hv items hitems := by
    have hk := (hm.vars v hv).kind
    rw [hitems] at hk
    exact ⟨hk.1, fun b hb => (hk.2 b hb).isFinite⟩

/-! ## States are sound -/

namespace ProgramReader

theorem wellFormed_of_reachable {r : ProgramReader} (h : Reachable kind limits r) :
    r.progress.draft.WellFormed kind limits := by
  induction h with
  | start source start => exact Draft.wellFormed_empty
  | step _ ih => exact step_wellFormed ih
  | advance _ ih => exact ih

/-- **Every state of a reader is sound**, whether it is running, done, or has failed. -/
theorem sound_of_reachable {r : ProgramReader} (h : Reachable kind limits r) :
    (r.progress.draft.toModel kind).Sound := (wellFormed_of_reachable h).model.sound

theorem reachable_runWithin (bound : Nat) {r : ProgramReader} (h : Reachable kind limits r) :
    Reachable kind limits (r.runWithin kind limits bound) := by
  induction bound generalizing r with
  | zero => exact h
  | succ bound ih =>
    unfold runWithin
    split
    · exact ih h.step.advance
    · exact h

/-- A program whose last instruction is refused behind its second source, a binding that has become
a variable by then. -/
def halfRead : String :=
  "!!ARBvp1.0\nADDRESS a;\nPARAM p[2] = { program.env[0], {1, -2} };\nARL a.x, vertex.fogcoord.x;\n" ++
    "ADD result.fogcoord, p[a.x - 64], -p[1].yxwz;\nADD result.position, p[0], state.fog.color p;\n"

theorem sound_halfRead : ∃ r, Reachable .vertex (Limits.ofKind .vertex) r ∧
    (∃ fault, r.status = .failed fault) ∧ r.progress.draft.instructions.length = 2 ∧
    r.progress.draft.vars.length = 6 ∧ (r.progress.draft.toModel .vertex).Sound := by
  let r := (ofSource halfRead 10).runWithin .vertex (Limits.ofKind .vertex) 6
  have hr : Reachable .vertex (Limits.ofKind .vertex) r := reachable_runWithin 6 (.start _ _)
  obtain ⟨hfailed, hinstructions, hvars⟩ :
      (match r.status with | .failed _ => true | _ => false) = true ∧
        r.progress.draft.instructions.length = 2 ∧ r.progress.draft.vars.length = 6 := by
    unfold r
    rw [show halfRead = String.ofList _ from String.ofList_append.symm, ofSource_ofList]
    decide +kernel
  have hstatus : ∃ fault, r.status = .failed fault := by
    cases e : r.status with
    | failed fault => exact ⟨fault, rfl⟩
    | running | done =>
      rw [e] at hfailed
      cases hfailed
  exact ⟨r, hr, hstatus, hinstructions, hvars, sound_of_reachable hr⟩

end ProgramReader

end ShaderAssembly
