import ShaderAssembly.Proofs.Editing.Run
/-!
# Counts and indices stay within their limits

* `Draft.Bounded`: the counts of a draft are right and at most their limits, and only texture units
  that there are have been read;
* **`Draft.Edit.bounded`**: every edit keeps a draft bounded;
* `ParamBinding.InRange`, `Draft.WithinLimits`: all that a draft has is within its limits;
* **`ProgramReader.limits_of_reachable`**: every reader has a draft within its limits, and a limit
  that it blames has been reached.
-/

namespace ShaderAssembly

open Relation (ReflTransGen)

variable {kind : ProgramKind} {limits : Limits} {ts : List Token}

namespace Draft

variable {d d' : Draft}

/-! ## Edits -/

/-- A draft that counts right, has no more of anything than there may be, and reads textures at
units that there are. -/
structure Bounded (limits : Limits) (d : Draft) : Prop where
  counted : d.Counted
  instructions : d.instructions.length ≤ limits.maxInstructions
  temporaries : d.temporaryCount ≤ limits.maxTemporaries
  addresses : d.addressCount ≤ limits.maxAddressRegisters
  samplers : ∀ unit target, d.samplers.get? unit = some target → unit < limits.maxTextureUnits

theorem bounded_empty : Bounded limits {} where
  counted := ⟨rfl, rfl⟩
  instructions := Nat.zero_le _
  temporaries := Nat.zero_le _
  addresses := Nat.zero_le _
  samplers _ _ h := nomatch h

theorem countP_append_kind (vs : List Variable) (v : Variable) (k : VariableKind) :
    (vs ++ [v]).countP (·.kind == k) = vs.countP (·.kind == k) + if v.kind = k then 1 else 0 := by
  rw [List.countP_append, List.countP_singleton]
  simp only [beq_iff_eq]

theorem counted_imply (h : d.Counted) {k : VariableKind} (hbinding : k.isBinding = true)
    (text : String) (offset : Nat) : (d.imply text k offset).Counted := by
  have hother (j : VariableKind) (hj : j.isBinding = false) :
      (d.imply text k offset).count j = d.count j := by
    have hne : k ≠ j := fun e => by
      rw [e, hj] at hbinding
      cases hbinding
    rw [count, imply, countP_append_kind, if_neg hne, count, Nat.add_zero]
  exact ⟨h.temporaries.trans (hother .temporary rfl).symm, h.addresses.trans (hother .address rfl).symm⟩

theorem Notes.bounded (h : Notes limits ts d d') (hd : d.Bounded limits) : d'.Bounded limits := by
  cases h with
  | imply text offset hnew hbinding hspelled =>
    exact { hd with counted := counted_imply hd.counted hbinding text offset }
  | write h =>
    rw [(afterWrite_of_write h).1]
    exact { hd with counted := ⟨hd.counted.temporaries, hd.counted.addresses⟩ }
  | @sample _ t hunit h =>
    obtain ⟨hd', hsamplers⟩ := samplers_of_sample h
    have hunits : ∀ unit target, d'.samplers.get? unit = some target → unit < limits.maxTextureUnits := by
      intro unit target hget
      obtain hget | rfl := (hsamplers unit target).1 hget
      · exact hd.samplers unit target hget
      · exact hunit
    rw [hd']
    exact { hd with
      counted := ⟨hd.counted.temporaries, hd.counted.addresses⟩
      samplers := hunits }

/-- **Every edit keeps a draft bounded**: what it adds, there was room for. -/
theorem Edit.bounded (h : Edit kind limits ts d d') (hd : d.Bounded limits) : d'.Bounded limits := by
  cases h with
  | note h => exact h.bounded hd
  | @declare _ name k hmem hname hspelled h =>
    obtain ⟨-, hcheck, rfl⟩ := declare_eq_ok h
    obtain ⟨htemporary, haddress⟩ := checkCount_eq_ok hcheck
    refine { hd with counted := ⟨?_, ?_⟩, temporaries := ?_, addresses := ?_ } <;> dsimp only
    · rw [count, countP_append_kind, ← count, ← hd.counted.temporaries]
      split <;> rfl
    · rw [count, countP_append_kind, ← count, ← hd.counted.addresses]
      split <;> rfl
    · split
      · exact htemporary ‹_›
      · exact hd.temporaries
    · split
      · exact haddress ‹_›
      · exact hd.addresses
  | nameAlso _ _ _ h =>
    rw [(nameAlso_eq_ok h).2]
    exact { hd with counted := ⟨hd.counted.temporaries, hd.counted.addresses⟩ }
  | option h =>
    rw [setOption_eq_ok h]
    exact { hd with counted := ⟨hd.counted.temporaries, hd.counted.addresses⟩ }
  | push hroom =>
    exact { hd with
      counted := ⟨hd.counted.temporaries, hd.counted.addresses⟩
      instructions := by
        rw [Draft.push, List.length_append]
        exact hroom }

theorem bounded_of_edits (h : ReflTransGen (Edit kind limits ts) {} d) : d.Bounded limits := by
  induction h with
  | refl => exact bounded_empty
  | tail _ hedit ih => exact hedit.bounded ih

end Draft

/-! ## Drafts within their limits -/

/-- A place inside its bank, or a light, a plane or a row that the pipeline has. -/
def ParamBinding.InRange (limits : Limits) : ParamBinding → Prop
  | .env n => n < limits.maxEnvParams
  | .localParam n => n < limits.maxLocalParams
  | .state (.light n _) | .state (.lightProduct n _ _) => n < lightCount
  | .state (.clipPlane n) => n < clipPlaneCount
  | .state (.matrixRow _ _ row) => row < matrixRowCount
  | _ => True

/-- The parameters that a variable stands for, of which an array has several. -/
def VariableKind.params : VariableKind → List ParamBinding
  | .param b => [b]
  | .paramArray items => items
  | _ => []

/-- **A draft all of whose counts are at most their limits and whose indices are below theirs**:
instructions, temporaries and address registers, the places of parameters in named, implicit and
array variables, and the texture units of instructions and of samplers. -/
structure Draft.WithinLimits (limits : Limits) (d : Draft) : Prop where
  instructions : d.instructions.length ≤ limits.maxInstructions
  temporaries : d.count .temporary ≤ limits.maxTemporaries
  addresses : d.count .address ≤ limits.maxAddressRegisters
  params : ∀ v ∈ d.vars, ∀ b ∈ v.kind.params, b.InRange limits
  textures : ∀ i ∈ d.instructions, ∀ t ∈ i.texture, t.unit < limits.maxTextureUnits
  samplers : ∀ unit target, d.samplers.get? unit = some target → unit < limits.maxTextureUnits

theorem ParamBinding.WellFormed.inRange {b : ParamBinding} (h : b.WellFormed limits) :
    b.InRange limits := by
  cases b with
  | constant v => trivial
  | env n | localParam n => exact h
  | state b =>
    cases b with
    | light n property | clipPlane n => exact h
    | lightProduct n face property => exact h.1
    | matrixRow matrix modifier row => exact h.2
    | _ => trivial

theorem VariableKind.WellFormed.inRange {k : VariableKind} (h : k.WellFormed kind limits) :
    ∀ b ∈ k.params, b.InRange limits := by
  cases k with
  | param b => exact List.forall_mem_singleton.2 (ParamBinding.WellFormed.inRange h)
  | paramArray items => exact fun b hb => (h.2 b hb).inRange
  | temporary | address | input _ | output _ => exact List.forall_mem_nil _

theorem Draft.Bounded.withinLimits {d : Draft} (h : d.Bounded limits) (hw : d.WellFormed kind limits) :
    d.WithinLimits limits where
  instructions := h.instructions
  temporaries := h.counted.temporaries ▸ h.temporaries
  addresses := h.counted.addresses ▸ h.addresses
  params v hv := (hw.model.vars v hv).kind.inRange
  textures i hi t ht := ((hw.model.instructions i hi).texture t ht).1
  samplers := h.samplers

/-! ## Readers -/

namespace ProgramReader

variable {r : ProgramReader}

theorem bounded_of_reachable (h : Reachable kind limits r) : r.progress.draft.Bounded limits := by
  obtain ⟨source, start, hr⟩ := editedOver_of_reachable h
  exact Draft.bounded_of_edits hr.edits

/-- **Every reader has a draft within its limits, and a limit that it blames has been reached**: where
a step fails, the draft has as many instructions or registers as the limit that is named, or the
tokens that the step was given have, at the place that is blamed, an index that is not below it. -/
theorem limits_of_reachable (h : Reachable kind limits r) :
    r.progress.draft.WithinLimits limits ∧
      ∀ fault, r.status = .running → (r.step kind limits).status = .failed fault →
        fault.IsJust limits r.progress.cursor.rest (r.step kind limits).progress.draft := by
  refine ⟨(bounded_of_reachable h).withinLimits (wellFormed_of_reachable h), fun fault hr hfault => ?_⟩
  exact (editsFrom_step hr (List.suffix_refl _)).2 fault hfault (bounded_of_reachable h.step).counted

/-- A program that fills the two places and the one instruction that `tightLimits` admits, and asks
for one temporary too many. -/
def crowded : String :=
  "!!ARBvp1.0\nTEMP a;\nALIAS b = a;\nPARAM p[2] = { program.env[0..1] };\nMOV b, p[1];\nTEMP c, d;"

/-- The limits of `crowded`. -/
def tightLimits : Limits where
  maxInstructions := 1
  maxTemporaries := 2
  maxAddressRegisters := 0
  maxEnvParams := 2
  maxLocalParams := 0
  maxTextureUnits := 0
  maxTextureCoords := 0

theorem limits_crowded : ∃ r, Reachable .vertex tightLimits r ∧ r.status = .running ∧
    r.progress.draft.vars.length = 2 ∧ r.progress.draft.instructions.length = 1 ∧
    r.progress.draft.WithinLimits tightLimits ∧
    (r.step .vertex tightLimits).status = .failed ⟨.tooManyTemporaries 2, 89⟩ ∧
    Fault.IsJust tightLimits r.progress.cursor.rest (r.step .vertex tightLimits).progress.draft
      ⟨.tooManyTemporaries 2, 89⟩ := by
  let r := (ofSource crowded 10).runWithin .vertex tightLimits 4
  have hr : Reachable .vertex tightLimits r := reachable_runWithin 4 (.start _ _)
  obtain ⟨hrunning, hvars, hinstructions, hfailed⟩ : r.status = .running ∧
      r.progress.draft.vars.length = 2 ∧ r.progress.draft.instructions.length = 1 ∧
      (r.step .vertex tightLimits).status = .failed ⟨.tooManyTemporaries 2, 89⟩ := by
    unfold r
    rw [crowded, ofSource_ofList]
    decide +kernel
  obtain ⟨hwithin, hjust⟩ := limits_of_reachable hr
  exact ⟨r, hr, hrunning, hvars, hinstructions, hwithin, hfailed, hjust _ hrunning hfailed⟩

end ProgramReader

end ShaderAssembly
