import ShaderAssembly.Proofs.Editing.Statement
import ShaderAssembly.Proofs.Framing.Run
import ShaderAssembly.Proofs.Parsing.Reachable
/-!
# Readers edit

The draft of a reader, wherever it stops, comes from the empty one by edits.

* **`ProgramReader.EditedOver`**: a reader whose draft has been edited over the tokens `ts`, some of
  which are left while it runs;
* `EditedOver.step`, `EditedOver.advance`, `EditedOver.runWithin`: it stays one;
* **`ProgramReader.editedOver_of_reachable`**: every reader is one;
* `ProgramReader.editsFrom_step`: a step that fails blames what stands in the text;
* `edits_of_readProgram`: the draft of an accepted program.
-/

namespace ShaderAssembly

open Relation (ReflTransGen)

namespace ProgramReader

variable {kind : ProgramKind} {limits : Limits} {ts : List Token} {r : ProgramReader}

/-- A reader whose draft has been edited over the tokens `ts`; while it runs, it has some of them
left. -/
structure EditedOver (kind : ProgramKind) (limits : Limits) (ts : List Token) (r : ProgramReader) :
    Prop where
  edits : ReflTransGen (Draft.Edit kind limits ts) {} r.progress.draft
  rest : r.status = .running → r.progress.cursor.rest <:+ ts

theorem editedOver_ofSource (source : String) (start : Nat) :
    (ofSource source start).EditedOver kind limits (Token.significant source start) where
  edits := .refl
  rest _ := List.tail_suffix _

/-- A step of a running reader makes a sequence of edits, and what it is refused for is just. -/
theorem editsFrom_step (hr : r.status = .running) (hts : r.progress.cursor.rest <:+ ts) :
    ReflTransGen (Draft.Edit kind limits ts) r.progress.draft (r.step kind limits).progress.draft ∧
      ∀ fault, (r.step kind limits).status = .failed fault →
        (r.step kind limits).progress.draft.Counted →
          fault.IsJust limits ts (r.step kind limits).progress.draft := by
  have hedits := (Parse.statementHere_edits kind limits ts).ends hts
  unfold step
  simp only [hr]
  split
  · rename_i e
    exact ⟨hedits.ok e, nofun⟩
  · rename_i e
    exact ⟨hedits.ok e, nofun⟩
  · rename_i e
    refine ⟨(hedits.error e).1, ?_⟩
    rintro _ ⟨⟩
    exact (hedits.error e).2

namespace EditedOver

theorem advance (h : r.EditedOver kind limits ts) : r.advance.EditedOver kind limits ts where
  edits := h.edits
  rest hr := (List.tail_suffix _).trans (h.rest hr)

theorem step (h : r.EditedOver kind limits ts) : (r.step kind limits).EditedOver kind limits ts := by
  by_cases hr : r.status = .running
  case neg => rwa [step_of_stopped hr]
  exact ⟨h.edits.trans (editsFrom_step hr (h.rest hr)).1,
    fun hstep => (suffix_of_running hstep).trans (h.rest hr)⟩

theorem runWithin (h : r.EditedOver kind limits ts) (bound : Nat) :
    (r.runWithin kind limits bound).EditedOver kind limits ts := by
  induction bound generalizing r with
  | zero => exact h
  | succ bound ih =>
    by_cases hr : r.status = .running
    · rw [runWithin_succ hr]
      exact ih h.step.advance
    · rwa [runWithin_of_stopped hr]

end EditedOver

/-- **Every reader has edited its draft over the tokens of some text.** -/
theorem editedOver_of_reachable (h : Reachable kind limits r) :
    ∃ source start, r.EditedOver kind limits (Token.significant source start) := by
  induction h with
  | start source start => exact ⟨source, start, editedOver_ofSource source start⟩
  | step _ ih =>
    obtain ⟨source, start, h⟩ := ih
    exact ⟨source, start, h.step⟩
  | advance _ ih =>
    obtain ⟨source, start, h⟩ := ih
    exact ⟨source, start, h.advance⟩

end ProgramReader

/-- **The draft of an accepted program has been edited over the tokens of its text.** -/
theorem edits_of_readProgram {settings : TranslatorSettings} {source : String} {kind : ProgramKind}
    {m : Model} (h : readProgram settings source kind = .ok m) :
    ∃ start d, Header.classify source kind = .ok start ∧ m = d.toModel kind ∧
      ReflTransGen (Draft.Edit kind (settings.limits kind) (Token.significant source start)) {} d := by
  obtain ⟨start, hstart, hframed, hdone⟩ := done_of_readProgram h
  have hm := (readProgram_of_done hstart hframed hdone).symm.trans h
  cases hm
  exact ⟨start, _, hstart, rfl, ((ProgramReader.editedOver_ofSource source start).runWithin _).edits⟩

end ShaderAssembly
