import ShaderAssembly.Proofs.Comparison.Statement
import ShaderAssembly.Proofs.Parsing.Extent
import ShaderAssembly.Proofs.Locality.Run
/-!
# Programs side by side

* `Comparison.SameReader`: readers that have read alike texts alike;
* `SameReader.step`, `SameReader.advance`: a statement and a move keep them so;
* **`SameReader.runWithin`**, `SameProgress.run`: so does every run, by induction on its statements;
* `Comparison.SameModel`: the programs that have been read then;
* `SameTokens.run`: texts whose significant tokens are alike.
-/

namespace ShaderAssembly

variable {Γ : Comparison}

namespace Comparison

/-- Readers with progress that is alike. Once the first one has refused something, the second one is
bound to have refused it only under the same limits. -/
inductive SameReader (Γ : Comparison) : ProgramReader → ProgramReader → Prop
  | running {p p' : Progress} (h : Γ.SameProgress p p') :
    SameReader Γ ⟨p, .running⟩ ⟨p', .running⟩
  | done {p p' : Progress} (h : Γ.SameProgress p p') : SameReader Γ ⟨p, .done⟩ ⟨p', .done⟩
  | failed (p : Progress) {f : Fault} {r' : ProgramReader}
    (h : Γ.limits = Γ.limits' → ∃ f', r'.status = .failed f' ∧ Γ.Blames f f') :
    SameReader Γ ⟨p, .failed f⟩ r'

/-- Programs that differ in places, and in the names of implicit variables. -/
structure SameModel (Γ : Comparison) (m m' : Model) : Prop where
  kind : m'.kind = m.kind
  vars : List.Forall₂ Γ.SameVariable m.vars m'.vars
  instructions : List.Forall₂ Γ.SameInstruction m.instructions m'.instructions
  special : m'.special = m.special
  samplers : m'.samplers = m.samplers

theorem SameDraft.toModel {d d' : Draft} (h : Γ.SameDraft d d') (kind : ProgramKind) :
    Γ.SameModel (d.toModel kind) (d'.toModel kind) :=
  ⟨rfl, h.vars, h.instructions, h.special, h.samplers⟩

theorem SameProgress.advance {p p' : Progress} (h : Γ.SameProgress p p') :
    Γ.SameProgress { p with cursor := p.cursor.advance } { p' with cursor := p'.cursor.advance } :=
  ⟨h.cursor.advance, h.draft⟩

namespace SameReader

variable (kind : ProgramKind) {r r' : ProgramReader}

theorem advance (h : Γ.SameReader r r') : Γ.SameReader r.advance r'.advance := by
  cases h with
  | running h => exact .running h.advance
  | done h => exact .done h.advance
  | failed p h => exact .failed _ h

theorem step (h : Γ.SameReader r r') :
    Γ.SameReader (r.step kind Γ.limits) (r'.step kind Γ.limits') := by
  cases h with
  | running h =>
    rename_i p p'
    have h := Parse.statementHere_follows kind p p' h
    unfold Parse.FollowsAt at h
    dsimp only [ProgramReader.step]
    cases e : Parse.statementHere kind Γ.limits p with
    | ok goesOn q =>
      rw [e] at h
      obtain ⟨_, q', e', hq, rfl⟩ := h
      rw [e']
      cases goesOn with
      | true => exact .running hq
      | false => exact .done hq
    | error f q =>
      rw [e] at h
      refine .failed q fun hl => ?_
      obtain ⟨f', q', e', hf⟩ := h hl
      exact ⟨f', by rw [e'], hf⟩
  | done h => exact .done h
  | failed p h =>
    refine .failed p fun hl => ?_
    obtain ⟨f', hstatus, hf⟩ := h hl
    exact ⟨f', by rw [ProgramReader.step_of_stopped (hstatus ▸ nofun), hstatus], hf⟩

/-- **Readers that are alike stay so through a run.** -/
theorem runWithin (h : Γ.SameReader r r') (bound : Nat) :
    Γ.SameReader (r.runWithin kind Γ.limits bound) (r'.runWithin kind Γ.limits' bound) := by
  induction bound generalizing r r' with
  | zero => exact h
  | succ bound ih =>
    cases h with
    | running h => exact ih ((SameReader.running h).step kind).advance
    | done h => exact .done h
    | failed p h =>
      refine .failed p fun hl => ?_
      obtain ⟨f', hstatus, hf⟩ := h hl
      exact ⟨f', by rw [ProgramReader.runWithin_of_stopped (hstatus ▸ nofun), hstatus], hf⟩

theorem done_of_done (h : Γ.SameReader r r') (hr : r.status = .done) :
    r'.status = .done ∧ Γ.SameProgress r.progress r'.progress := by
  cases h with
  | running h => cases hr
  | done h => exact ⟨rfl, h⟩
  | failed p h => cases hr

theorem failed_of_failed (h : Γ.SameReader r r') (hl : Γ.limits = Γ.limits') {f : Fault}
    (hr : r.status = .failed f) : ∃ f', r'.status = .failed f' ∧ Γ.Blames f f' := by
  cases h with
  | running h => cases hr
  | done h => cases hr
  | failed p h =>
    cases hr
    exact h hl

end SameReader

/-- Texts that are alike are read to their ends alike: they have as many tokens. -/
theorem SameProgress.run (kind : ProgramKind) {p p' : Progress} (h : Γ.SameProgress p p') :
    Γ.SameReader (ProgramReader.run kind Γ.limits ⟨p, .running⟩)
      (ProgramReader.run kind Γ.limits' ⟨p', .running⟩) := by
  unfold ProgramReader.run
  rw [← h.cursor.rest.length_eq]
  exact (SameReader.running h).runWithin kind _

/-! ## Texts -/

variable {source source' : String} {start start' : Nat}

/-- Texts whose significant tokens and ends correspond. -/
structure SameTokens (Γ : Comparison) (source : String) (start : Nat) (source' : String)
    (start' : Nat) : Prop where
  tokens : List.Forall₂ Γ.Alike (Token.significant source start) (Token.significant source' start')
  stop : Γ.place source.utf8ByteSize source'.utf8ByteSize
  source : Γ.sameText → source = source'

theorem alike_endAt (h : Γ.place source.utf8ByteSize source'.utf8ByteSize) :
    Γ.Alike (.endAt (Text.byteLength source.toList)) (.endAt (Text.byteLength source'.toList)) := by
  rw [Text.byteLength_toList, Text.byteLength_toList]
  exact ⟨_, rfl, h, nofun⟩

theorem SameTokens.progress (h : Γ.SameTokens source start source' start') :
    Γ.SameProgress (ProgramReader.ofSource source start).progress
      (ProgramReader.ofSource source' start').progress :=
  ⟨.of_rest h.tokens (alike_endAt h.stop) fun same => by rw [h.source same], .empty⟩

/-- **Runs over texts that are alike stay alike to their ends.** -/
theorem SameTokens.run (h : Γ.SameTokens source start source' start') (kind : ProgramKind) :
    Γ.SameReader ((ProgramReader.ofSource source start).run kind Γ.limits)
      ((ProgramReader.ofSource source' start').run kind Γ.limits') := h.progress.run kind

end Comparison

end ShaderAssembly
