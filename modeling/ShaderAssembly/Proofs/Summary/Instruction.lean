import ShaderAssembly.Proofs.Summary.Quiet
import ShaderAssembly.Proofs.Parsing.Operand
/-!
# What an instruction adds to the summary

An instruction is noted while its operands are read, before it is accepted. What has been noted when
it is accepted is what the instruction does, and no more.

* `Instruction.writtenKind?`: the kind of the variable that an instruction writes;
* `SpecialCases.AfterWrite`: the features behind a write;
* `Draft.Gains`: a draft with one more instruction, and what that instruction does;
* **`Parse.instruction_gains`**: what reading an instruction changes.
-/

namespace ShaderAssembly

/-- The kind of the variable that an instruction writes, if it writes one. -/
def Instruction.writtenKind? (vars : List Variable) (i : Instruction) : Option VariableKind :=
  i.destination.bind fun t => kindAt vars t.var

/-- The features behind a write to a variable of a kind: those before it, and what the kind brings
with it. Nothing writes the position where the fixed pipeline computes it. -/
structure SpecialCases.AfterWrite (special : SpecialCases) (written : Option VariableKind)
    (special' : SpecialCases) : Prop where
  writesFogCoord : special'.writesFogCoord = true ↔
    special.writesFogCoord = true ∨ written = some (.output .fogCoord)
  writesDepth : special'.writesDepth = true ↔
    special.writesDepth = true ∨ written = some (.output .fragDepth)
  fog : special'.fog = special.fog
  positionInvariant : special'.positionInvariant = special.positionInvariant
  position : special.positionInvariant = true → written ≠ some (.output .position)

/-- The draft `d'` is `d` with one more instruction, and with what that instruction does. -/
structure Draft.Gains (d : Draft) (i : Instruction) (d' : Draft) : Prop where
  vars : d.vars <+: d'.vars
  instructions : d'.instructions = d.instructions ++ [i]
  samplers : ∀ unit target, d'.samplers.get? unit = some target ↔
    d.samplers.get? unit = some target ∨ i.texture = some ⟨unit, target⟩
  special : d.special.AfterWrite (i.writtenKind? d'.vars) d'.special

/-! ## Writes and textures -/

theorem SpecialCases.AfterWrite.none (special : SpecialCases) : special.AfterWrite none special where
  writesFogCoord := by simp
  writesDepth := by simp
  fog := rfl
  positionInvariant := rfl
  position _ := nofun

namespace Draft

variable {d d' : Draft}

theorem afterWrite_of_write {k : VariableKind} (h : d.write k = .ok d') :
    d' = { d with special := d'.special } ∧ d.special.AfterWrite (some k) d'.special := by
  unfold write at h
  split at h
  · split at h
    · cases h
    · rename_i hvariant
      cases h
      exact ⟨rfl, by simp, by simp, rfl, rfl, fun h => absurd h hvariant⟩
  · cases h
    exact ⟨rfl, by simp, by simp, rfl, rfl, fun _ => by simp⟩
  · cases h
    exact ⟨rfl, by simp, by simp, rfl, rfl, fun _ => by simp⟩
  · rename_i hposition hfog hdepth
    cases h
    refine ⟨rfl, ?_, ?_, rfl, rfl, fun _ h => hposition (Option.some.inj h)⟩
    · simpa using fun h => absurd h hfog
    · simpa using fun h => absurd h hdepth

theorem samplers_of_sample {t : TextureOperand} (h : d.sample t = .ok d') :
    d' = { d with samplers := d'.samplers } ∧ ∀ unit target,
      d'.samplers.get? unit = some target ↔ d.samplers.get? unit = some target ∨ t = ⟨unit, target⟩ := by
  have noted (hold : ∀ target, d.samplers.get? t.unit = some target → target = t.target)
      (unit : Nat) (target : TextureTarget) :
      (d.samplers.insert t.unit t.target).get? unit = some target ↔
        d.samplers.get? unit = some target ∨ t = ⟨unit, target⟩ := by
    obtain ⟨unit', target'⟩ := t
    rw [SortedMap.get?_insert]
    by_cases hunit : unit' = unit
    · subst hunit
      simp only [if_true, Option.some.injEq, TextureOperand.mk.injEq, true_and]
      exact ⟨.inr, fun h => h.elim (fun h => (hold _ h).symm) id⟩
    · simp [hunit]
  unfold sample at h
  dsimp only at h
  split at h
  · rename_i hnone
    cases h
    exact ⟨rfl, noted fun target e => by simp [hnone] at e⟩
  · rename_i target hsome
    split at h
    · rename_i he
      cases h
      exact ⟨rfl, noted fun target' e => by rw [hsome] at e; cases e; exact he⟩
    · cases h

end Draft

namespace Parse

variable {kind : ProgramKind} {limits : Limits} {p q : Progress}

/-! ## Operands -/

theorem destination_afterWrite {first : Token} {opcode : Opcode} {t : Destination}
    (hw : p.draft.WellFormed kind limits) (e : destination kind limits first opcode p = .ok t q) :
    p.draft.vars <+: q.draft.vars ∧ q.draft.samplers = p.draft.samplers ∧
      q.draft.instructions = p.draft.instructions ∧
      ∀ vars, q.draft.vars <+: vars →
        p.draft.special.AfterWrite (kindAt vars t.var) q.draft.special := by
  unfold destination at e
  obtain ⟨⟨var, k⟩, p₁, e₁, e₂⟩ := bind_eq_ok.1 e
  have hsame := IsQuiet.same e₁
  have hkind : kindAt p₁.draft.vars var = some k := by
    have hkeeps := destinationVariable_keeps first p (.refl p.draft) hw
    rw [e₁] at hkeeps
    exact hkeeps.2.2.1
  dsimp only at e₂
  split at e₂
  · cases e₂
  split at e₂
  · cases e₂
  obtain ⟨mask, p₂, e₃, e₄⟩ := bind_eq_ok.1 e₂
  obtain ⟨c, -, rfl⟩ := lift_eq_ok.1 e₃
  split at e₄
  · cases e₄
  obtain ⟨_, p₃, e₅, e₆⟩ := bind_eq_ok.1 e₄
  cases e₆
  rw [edit_eq] at e₅
  split at e₅
  · rename_i d hwrite
    cases e₅
    obtain ⟨hd, hspecial⟩ := Draft.afterWrite_of_write hwrite
    rw [hd]
    dsimp only
    refine ⟨hsame.vars, hsame.samplers, hsame.instructions, fun vars hvars => ?_⟩
    rw [kindAt_mono hvars hkind, ← hsame.special]
    exact hspecial
  · cases e₅

theorem destination?_afterWrite {opcode : Opcode} {t : Option Destination}
    (hw : p.draft.WellFormed kind limits) (e : destination? kind limits opcode p = .ok t q) :
    p.draft.vars <+: q.draft.vars ∧ q.draft.samplers = p.draft.samplers ∧
      q.draft.instructions = p.draft.instructions ∧
      ∀ vars, q.draft.vars <+: vars →
        p.draft.special.AfterWrite (t.bind fun t => kindAt vars t.var) q.draft.special := by
  unfold destination? at e
  split at e
  · cases e
    exact ⟨List.prefix_refl _, rfl, rfl, fun _ _ => .none _⟩
  · obtain ⟨first, p₁, e₁, e₂⟩ := bind_eq_ok.1 e
    obtain ⟨c, -, rfl⟩ := lift_eq_ok.1 e₁
    obtain ⟨t, p₂, hdestination, e₃⟩ := bind_eq_ok.1 e₂
    obtain ⟨_, p₃, e₄, e₅⟩ := bind_eq_ok.1 e₃
    obtain ⟨c', -, rfl⟩ := lift_eq_ok.1 e₄
    cases e₅
    exact destination_afterWrite (p := { p with cursor := c }) (q := p₂) hw hdestination

theorem texture_samplers {t : TextureOperand} (e : texture limits p = .ok t q) :
    q.draft = { p.draft with samplers := q.draft.samplers } ∧ ∀ unit target,
      q.draft.samplers.get? unit = some target ↔
        p.draft.samplers.get? unit = some target ∨ t = ⟨unit, target⟩ := by
  unfold texture at e
  obtain ⟨name, p₁, e₁, e⟩ := bind_eq_ok.1 e
  obtain ⟨c₁, -, rfl⟩ := lift_eq_ok.1 e₁
  dsimp only at e
  split at e
  · cases e
  obtain ⟨index, p₂, e₂, e⟩ := bind_eq_ok.1 e
  obtain ⟨c₂, -, rfl⟩ := lift_eq_ok.1 e₂
  split at e
  · cases e
  obtain ⟨_, p₃, e₃, e⟩ := bind_eq_ok.1 e
  obtain ⟨c₃, -, rfl⟩ := lift_eq_ok.1 e₃
  obtain ⟨shape, p₄, e₄, e⟩ := bind_eq_ok.1 e
  obtain ⟨c₄, -, rfl⟩ := lift_eq_ok.1 e₄
  cases hshape : TextureTarget.ofName? shape.text with
  | none =>
    rw [hshape] at e
    cases e
  | some target =>
    rw [hshape] at e
    obtain ⟨_, p₅, e₅, e⟩ := bind_eq_ok.1 e
    cases e
    rw [edit_eq] at e₅
    split at e₅
    · rename_i d hsample
      cases e₅
      exact Draft.samplers_of_sample hsample
    · cases e₅

theorem texture?_samplers {opcode : Opcode} {t : Option TextureOperand}
    (e : texture? limits opcode p = .ok t q) :
    q.draft = { p.draft with samplers := q.draft.samplers } ∧ ∀ unit target,
      q.draft.samplers.get? unit = some target ↔
        p.draft.samplers.get? unit = some target ∨ t = some ⟨unit, target⟩ := by
  unfold texture? at e
  split at e
  · cases e
    exact ⟨rfl, by simp⟩
  · obtain ⟨_, p₁, e₁, e⟩ := bind_eq_ok.1 e
    obtain ⟨c₁, -, rfl⟩ := lift_eq_ok.1 e₁
    obtain ⟨t, p₂, e₂, e⟩ := bind_eq_ok.1 e
    cases e
    obtain ⟨hdraft, hsamplers⟩ := texture_samplers e₂
    exact ⟨hdraft, by simpa using hsamplers⟩

/-! ## Instructions -/

theorem instruction_gains {word : Token} {u : Unit} (hw : p.draft.WellFormed kind limits)
    (e : instruction kind limits word p = .ok u q) :
    ∃ i, Instruction.ofWord? kind word.text = some (i.opcode, i.saturate) ∧ i.offset = word.offset ∧
      p.draft.Gains i q.draft := by
  unfold instruction at e
  cases hword : Instruction.ofWord? kind word.text with
  | none =>
    rw [hword] at e
    cases e
  | some found =>
    obtain ⟨opcode, saturate⟩ := found
    rw [hword] at e
    obtain ⟨d, p₁, e₁, e⟩ := bind_eq_ok.1 e
    cases e₁
    dsimp only at e
    split at e
    · cases e
    obtain ⟨destination, p₁, e₁, e⟩ := bind_eq_ok.1 e
    obtain ⟨sources, p₂, e₂, e⟩ := bind_eq_ok.1 e
    obtain ⟨extended, p₃, e₃, e⟩ := bind_eq_ok.1 e
    obtain ⟨texture, p₄, e₄, e⟩ := bind_eq_ok.1 e
    obtain ⟨_, p₅, e₅, e⟩ := bind_eq_ok.1 e
    obtain ⟨c, -, rfl⟩ := lift_eq_ok.1 e₅
    cases e
    obtain ⟨hvars, hsamplers, hinstructions, hspecial⟩ := destination?_afterWrite hw e₁
    have hsame := (IsQuiet.same e₂).trans (IsQuiet.same e₃)
    obtain ⟨hdraft, htexture⟩ := texture?_samplers e₄
    have hvars' : p₄.draft.vars = p₃.draft.vars := by rw [hdraft]
    refine ⟨{ opcode, saturate, destination, sources, extended, texture, offset := word.offset },
      rfl, rfl, hvars.trans (hvars' ▸ hsame.vars), ?_, fun unit target => ?_, ?_⟩
    · change p₄.draft.instructions ++ _ = _
      rw [hdraft, hsame.instructions, hinstructions]
    · change p₄.draft.samplers.get? unit = some target ↔ _
      rw [htexture, hsame.samplers, hsamplers]
    · change p.draft.special.AfterWrite (destination.bind fun t => kindAt p₄.draft.vars t.var)
        p₄.draft.special
      have hspecial' : p₄.draft.special = p₁.draft.special := by rw [hdraft, hsame.special]
      rw [hspecial']
      exact hspecial _ (hvars' ▸ hsame.vars)

end Parse

end ShaderAssembly
