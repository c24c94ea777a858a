import ShaderAssembly.Proofs.Locality.Run
import ShaderAssembly.Translation
/-!
# Whole texts

What `readProgram` makes of the run over a text: `readProgram_of_done` and `readProgram_of_failed`
for a run that has read a program and for one that has refused something.
-/

namespace ShaderAssembly

variable {settings : TranslatorSettings} {source : String} {kind : ProgramKind} {start : Nat}

theorem exists_of_isFramed (h : isFramed source start = true) :
    ∃ blank ts, Token.ofSource source start = blank :: ts ∧ blank.isTrivia = true := by
  unfold isFramed at h
  split at h
  · exact ⟨_, _, ‹_›, h⟩
  · cases h

/-- A text with the signature and a blank behind it is read to its end. -/
theorem readProgram_eq (settings : TranslatorSettings) (h : Header.classify source kind = .ok start)
    (hframed : isFramed source start = true) : readProgram settings source kind =
      (((ProgramReader.ofSource source start).run kind (settings.limits kind)).finish
        kind).mapError (·.clamp source.utf8ByteSize) := by
  unfold readProgram
  rw [h]
  simp only [bind, Except.bind, hframed]
  rfl

theorem readProgram_of_done (h : Header.classify source kind = .ok start)
    (hframed : isFramed source start = true)
    (hdone : ((ProgramReader.ofSource source start).run kind (settings.limits kind)).status = .done) :
    readProgram settings source kind = .ok (((ProgramReader.ofSource source start).run kind
      (settings.limits kind)).progress.draft.toModel kind) := by
  rw [readProgram_eq settings h hframed, ProgramReader.finish, hdone]
  rfl

/-- An offset inside a text, where the end counts as the last byte. -/
def clampOffset (length offset : Nat) : Nat := if length ≤ offset then length - 1 else offset

theorem readProgram_of_failed (h : Header.classify source kind = .ok start)
    (hframed : isFramed source start = true) {fault : Fault}
    (hfailed : ((ProgramReader.ofSource source start).run kind (settings.limits kind)).status =
      .failed fault) :
    readProgram settings source kind =
      .error (.malformed fault.cause.message (clampOffset source.utf8ByteSize fault.offset)) := by
  rw [readProgram_eq settings h hframed, ProgramReader.finish, hfailed]
  rfl

/-- A program that was read stands behind a signature and a blank, and the run over it was done. -/
theorem done_of_readProgram {m : Model} (h : readProgram settings source kind = .ok m) :
    ∃ start, Header.classify source kind = .ok start ∧ isFramed source start = true ∧
      ((ProgramReader.ofSource source start).run kind (settings.limits kind)).status = .done := by
  cases hstart : Header.classify source kind with
  | error e =>
    rw [readProgram, hstart] at h
    cases h
  | ok start =>
    by_cases hframed : isFramed source start = true
    case neg =>
      rw [readProgram, hstart] at h
      simp only [bind, Except.bind, hframed] at h
      cases h
    refine ⟨start, rfl, hframed, ?_⟩
    cases hstatus : ((ProgramReader.ofSource source start).run kind (settings.limits kind)).status with
    | running => exact absurd hstatus (ProgramReader.stopped_run _)
    | done => rfl
    | failed fault =>
      rw [readProgram_of_failed hstart hframed hstatus] at h
      cases h

end ShaderAssembly
