import ShaderAssembly.Proofs.Editing.Run
import ShaderAssembly.Proofs.Parsing.Driver
/-!
# Reading only adds

A statement may declare registers, note what its operands need and then be refused. Whatever it has
added by then stays, but an instruction is added as a whole or not at all.

* `Parse.instructions_of_ok`, `Parse.instructions_of_error`: a statement that is accepted adds one
  instruction at most, and one that is refused adds none;
* `ProgramReader.exists_instructions_of_step`: so does a step;
* **`ProgramReader.accumulates`**: steps only add, and only while the reader runs.
-/

namespace ShaderAssembly

variable {kind : ProgramKind} {limits : Limits}

/-! ## Statements -/

namespace Parse

theorem instructions_of_error {word : Token} {p q : Progress} {f : Fault}
    (e : openedBy kind limits word p = .error f q) :
    q.draft.instructions = p.draft.instructions := by
  obtain hedits | hinstruction := openedBy_edits kind limits p.cursor.rest word
  · exact (Draft.Declaration.frame_of_many ((hedits.ends (List.suffix_refl _)).error e).1).1
  rw [hinstruction, instruction_eq] at e
  split at e
  · cases e
    rfl
  rename_i opcode saturate _
  obtain e | ⟨d, p₁, e₁, e⟩ := Reading.bind_eq_error.1 e
  · cases e
  cases e₁
  dsimp only at e
  split at e
  · cases e
    rfl
  -- what follows the parts cannot be refused
  obtain e | ⟨i, q₁, -, e⟩ := Reading.bind_eq_error.1 e
  · have hparts : Edits limits p.cursor.rest (Draft.Notes limits p.cursor.rest)
      (instructionParts kind limits word opcode saturate) := inferInstance
    exact (Draft.Notes.frame_of_many ((hparts.ends (List.suffix_refl _)).error e).1).1
  · cases e

theorem instructions_of_ok {word : Token} {p q : Progress} {u : Unit}
    (e : openedBy kind limits word p = .ok u q) :
    ∃ more, q.draft.instructions = p.draft.instructions ++ more ∧ more.length ≤ 1 := by
  obtain hedits | hinstruction := openedBy_edits kind limits p.cursor.rest word
  · have hsame := (Draft.Declaration.frame_of_many ((hedits.ends (List.suffix_refl _)).ok e)).1
    exact ⟨[], by rw [hsame, List.append_nil], Nat.zero_le _⟩
  · rw [hinstruction] at e
    obtain ⟨i, d, -, -, hnotes, hd⟩ := instruction_eq_ok e
    refine ⟨[i], ?_, Nat.le_refl _⟩
    rw [hd, Draft.push, (Draft.Notes.frame_of_many hnotes).1]

theorem statementHere_error {p q : Progress} {f : Fault} (e : statementHere kind limits p = .error f q) :
    q = p ∨ openedBy kind limits p.cursor.current p = .error f q := by
  rw [statementHere_eq, statementAt] at e
  cases hkind : p.cursor.current.kind with
  | identifier =>
    simp only [hkind, statement_eq] at e
    split at e
    · cases e
    obtain e | ⟨_, _, -, e⟩ := Reading.bind_eq_error.1 e
    · exact .inr e
    · cases e
  | _ =>
    simp only [hkind] at e
    cases e
    exact .inl rfl

end Parse

/-! ## Steps -/

namespace ProgramReader

variable {r : ProgramReader}

/-- A step adds one instruction at most, and none if the reader stops. -/
theorem exists_instructions_of_step (r : ProgramReader) :
    ∃ more, (r.step kind limits).progress.draft.instructions = r.progress.draft.instructions ++ more ∧
      more.length ≤ 1 ∧ ((r.step kind limits).status ≠ .running → more = []) := by
  by_cases hr : r.status = .running
  case neg => exact ⟨[], by rw [step_of_stopped hr, List.append_nil], Nat.zero_le _, fun _ => rfl⟩
  unfold step
  simp only [hr]
  cases e : Parse.statementHere kind limits r.progress with
  | error f q =>
    refine ⟨[], ?_, Nat.zero_le _, fun _ => rfl⟩
    obtain rfl | e := Parse.statementHere_error e
    · exact (List.append_nil _).symm
    · rw [List.append_nil]
      exact Parse.instructions_of_error e
  | ok goesOn q =>
    obtain ⟨-, h⟩ := Parse.statementHere_eq_ok kind limits e
    cases goesOn with
    | false =>
      obtain ⟨-, rfl⟩ := h
      exact ⟨[], (List.append_nil _).symm, Nat.zero_le _, fun _ => rfl⟩
    | true =>
      obtain ⟨more, hmore, hlength⟩ := Parse.instructions_of_ok h.2
      exact ⟨more, hmore, hlength, fun hstopped => absurd rfl hstopped⟩

/-- **Reading only adds.** -/
theorem accumulates (h : Reachable kind limits r) :
    r.progress.draft.Grows (r.step kind limits).progress.draft ∧
      (∃ more,
        (r.step kind limits).progress.draft.instructions = r.progress.draft.instructions ++ more ∧
        more.length ≤ 1 ∧ ((r.step kind limits).status ≠ .running → more = [])) ∧
      (r.AtEnd → r.step kind limits = { r with status := .done }) ∧
      (r.status ≠ .running → r.step kind limits = r) ∧
      ∀ t ts, (Driver.call kind limits ⟨t :: ts, r⟩).reader =
        if t.isTrivia then r else (r.step kind limits).advance := by
  refine ⟨(step_keeps (wellFormed_of_reachable h)).1, exists_instructions_of_step r, step_of_atEnd,
    step_of_stopped, fun t ts => ?_⟩
  unfold Driver.call
  dsimp only
  split <;> rfl

/-- A program whose instruction is refused behind its last operand. -/
def refusedLate : String := "!!ARBvp1.0\nTEMP a;\nADD a, vertex.position, a b;\n"

theorem accumulates_refusedLate : ∃ r, Reachable .vertex (Limits.ofKind .vertex) r ∧
    r.status = .running ∧ (r.step .vertex (Limits.ofKind .vertex)).status ≠ .running ∧
    r.progress.draft.vars.length = 1 ∧
    (r.step .vertex (Limits.ofKind .vertex)).progress.draft.vars.length = 2 ∧
    (r.step .vertex (Limits.ofKind .vertex)).progress.draft.instructions =
      r.progress.draft.instructions := by
  let r := (ofSource refusedLate 10).runWithin .vertex (Limits.ofKind .vertex) 1
  have hr : Reachable .vertex (Limits.ofKind .vertex) r := reachable_runWithin 1 (.start _ _)
  obtain ⟨hrunning, hstopped, hone, htwo⟩ : r.status = .running ∧
      (r.step .vertex (Limits.ofKind .vertex)).status ≠ .running ∧
      r.progress.draft.vars.length = 1 ∧
      (r.step .vertex (Limits.ofKind .vertex)).progress.draft.vars.length = 2 := by
    unfold r
    rw [refusedLate, ofSource_ofList]
    decide +kernel
  obtain ⟨-, ⟨more, hmore, -, hnone⟩, -⟩ := accumulates hr
  refine ⟨r, hr, hrunning, hstopped, hone, htwo, ?_⟩
  rw [hmore, hnone hstopped, List.append_nil]

end ProgramReader

end ShaderAssembly
