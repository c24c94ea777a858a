import ShaderAssembly.Proofs.WellFormed
import ShaderAssembly.Statement.Declaration
/-!
# What changes of a draft leave behind

Each change of a well-formed draft that is not refused makes it grow and leaves it well-formed:

* `Draft.declare_grows`, `Draft.nameAlso_grows`, `Draft.imply_grows`: names and variables;
* `Draft.sample_grows`, `Draft.write_grows`, `Draft.push_grows`: instructions;
* `Draft.setOption_grows`: options.
-/

namespace ShaderAssembly.Draft

variable {kind : ProgramKind} {limits : Limits} {d d' : Draft}

/-! ## Variables -/

theorem lookup?_eq_some {name : String} {i : Nat} {v : Variable} :
    d.lookup? name = some (i, v) ↔ d.symbols.lookup name = some i ∧ d.vars[i]? = some v := by
  simp only [lookup?, Option.bind_eq_bind, Option.pure_def, Option.bind_eq_some_iff,
    Option.some.injEq, Prod.mk.injEq]
  constructor
  · rintro ⟨j, hj, w, hw, rfl, rfl⟩
    exact ⟨hj, hw⟩
  · rintro ⟨hi, hv⟩
    exact ⟨i, hi, v, hv, rfl, rfl⟩

theorem getElem?_of_lookup? {name : String} {i : Nat} {v : Variable}
    (h : d.lookup? name = some (i, v)) : d.vars[i]? = some v := (lookup?_eq_some.1 h).2

theorem exists_of_implied? {k : VariableKind} {i : Nat} (h : d.implied? k = some i) :
    ∃ v ∈ d.vars, v.implicit = true ∧ v.kind = k := by
  obtain ⟨hi, hp, -⟩ := List.findIdx?_eq_some_iff_getElem.1 h
  simp only [Bool.and_eq_true, beq_iff_eq] at hp
  exact ⟨_, List.getElem_mem hi, hp⟩

theorem kindAt_of_implied? {k : VariableKind} {i : Nat} (h : d.implied? k = some i) :
    kindAt d.vars i = some k := by
  obtain ⟨hi, hp, -⟩ := List.findIdx?_eq_some_iff_getElem.1 h
  simp only [Bool.and_eq_true, beq_iff_eq] at hp
  rw [kindAt, List.getElem?_eq_getElem hi, Option.map_some, hp.2]

theorem checkName_eq_ok {name : String} (h : d.checkName name = .ok ()) :
    d.symbols.lookup name = none := by
  unfold checkName at h
  split at h
  · cases h
  split at h
  · cases h
  · rename_i hnone
    exact Option.not_isSome_iff_eq_none.1 hnone

theorem notReserved_of_checkName {name : String} (h : d.checkName name = .ok ()) :
    isReserved name = false := by
  unfold checkName at h
  split at h
  · cases h
  · rename_i hfree
    simpa using hfree

/-- A new name does not change what the other ones stand for. -/
theorem lookup_cons_of_new {symbols : List (String × Nat)} {name : String}
    (h : symbols.lookup name = none) (i : Nat) (other : String) (j : Nat)
    (hj : symbols.lookup other = some j) : ((name, i) :: symbols).lookup other = some j := by
  rw [List.lookup_cons]
  split
  · rename_i he
    rw [beq_iff_eq] at he
    rw [he, h] at hj
    cases hj
  · exact hj

/-! ## Growing drafts -/

theorem wellFormed_empty : WellFormed kind limits {} where
  model.vars _ h := nomatch h
  model.names := .nil
  model.instructions _ h := nomatch h
  named _ h := nomatch h

theorem WellFormed.of_grows (h : d.WellFormed kind limits) (hg : d.Grows d')
    (hv : d'.vars = d.vars) (hi : d'.instructions = d.instructions) :
    d'.WellFormed kind limits where
  model.vars v hm := h.model.vars v (by rwa [toModel, hv] at hm)
  model.names := by
    rw [toModel, hv]
    exact h.model.names
  model.instructions i hm :=
    (h.model.instructions i (by rwa [toModel, hi] at hm)).mono hg
  named v hm hn := by
    obtain ⟨j, hj⟩ := Option.isSome_iff_exists.1 (h.named v (hv ▸ hm) hn)
    rw [hg.symbols _ _ hj]
    rfl

/-- A draft that grows by a well-formed variable stays well-formed, if no other one was declared
under its name. -/
theorem WellFormed.addVariable (h : d.WellFormed kind limits) (hg : d.Grows d') {v : Variable}
    (hv : d'.vars = d.vars ++ [v]) (hi : d'.instructions = d.instructions)
    (hw : v.WellFormed kind limits)
    (hnew : v.implicit = false → d.symbols.lookup v.name = none)
    (hnamed : v.implicit = false → (d'.symbols.lookup v.name).isSome = true) :
    d'.WellFormed kind limits where
  model.vars w hm := by
    rw [toModel, hv] at hm
    rcases List.mem_append.1 hm with hm | hm
    · exact h.model.vars w hm
    · rwa [List.mem_singleton.1 hm]
  model.names := by
    rw [toModel, hv]
    refine List.pairwise_append.2 ⟨h.model.names, List.pairwise_singleton _ _, ?_⟩
    intro w hw' v' hv' hsame
    rw [List.mem_singleton.1 hv'] at hsame
    obtain ⟨hw₁, hv₁, hn⟩ := hsame
    have hs := h.named w hw' hw₁
    rw [hn, hnew hv₁] at hs
    cases hs
  model.instructions i hm :=
    (h.model.instructions i (by rwa [toModel, hi] at hm)).mono hg
  named w hm hn := by
    rw [hv] at hm
    rcases List.mem_append.1 hm with hm | hm
    · obtain ⟨j, hj⟩ := Option.isSome_iff_exists.1 (h.named w hm hn)
      rw [hg.symbols _ _ hj]
      rfl
    · rw [List.mem_singleton.1 hm] at hn ⊢
      exact hnamed hn

/-! ## Names -/

theorem declare_grows {name : String} {k : VariableKind} {offset : Nat}
    (hd : d.WellFormed kind limits) (hk : k.WellFormed kind limits)
    (hn : name.toList.all isWordChar = true) (h : d.declare limits name k offset = .ok d') :
    d.Grows d' ∧ d'.WellFormed kind limits := by
  unfold declare at h
  cases hname : d.checkName name with
  | error e => rw [hname] at h; cases h
  | ok u =>
    cases hcount : d.checkCount limits k with
    | error e => rw [hname, hcount] at h; cases h
    | ok u' =>
      rw [hname, hcount] at h
      cases h
      have hnew := checkName_eq_ok hname
      have hg : d.Grows { d with
          vars := d.vars ++ [{ name, kind := k, offset }]
          symbols := (name, d.vars.length) :: d.symbols
          temporaryCount := if k = .temporary then d.temporaryCount + 1 else d.temporaryCount
          addressCount := if k = .address then d.addressCount + 1 else d.addressCount } :=
        { Grows.refl d with
          vars := List.prefix_append _ _
          symbols := lookup_cons_of_new hnew _ }
      exact ⟨hg, hd.addVariable hg rfl rfl ⟨hk, fun _ => hn⟩ (fun _ => hnew)
        fun _ => by simp⟩

theorem nameAlso_grows {name : String} {i : Nat} (hd : d.WellFormed kind limits)
    (h : d.nameAlso name i = .ok d') : d.Grows d' ∧ d'.WellFormed kind limits := by
  unfold nameAlso at h
  cases hname : d.checkName name with
  | error e => rw [hname] at h; cases h
  | ok u =>
    rw [hname] at h
    cases h
    have hg : d.Grows { d with symbols := (name, i) :: d.symbols } :=
      { Grows.refl d with symbols := lookup_cons_of_new (checkName_eq_ok hname) _ }
    exact ⟨hg, hd.of_grows hg rfl rfl⟩

theorem imply_grows (text : String) (k : VariableKind) (offset : Nat)
    (hd : d.WellFormed kind limits) (hk : k.WellFormed kind limits) :
    d.Grows (d.imply text k offset) ∧ (d.imply text k offset).WellFormed kind limits := by
  have hg : d.Grows (d.imply text k offset) :=
    { Grows.refl d with vars := List.prefix_append _ _ }
  exact ⟨hg, hd.addVariable hg rfl rfl ⟨hk, fun h => nomatch h⟩ (fun h => nomatch h)
    fun h => nomatch h⟩

/-! ## Instructions -/

theorem sample_grows {t : TextureOperand} (hd : d.WellFormed kind limits)
    (h : d.sample t = .ok d') :
    d.Grows d' ∧ d'.WellFormed kind limits ∧ d'.samplers.get? t.unit = some t.target := by
  have note (hold : ∀ target, d.samplers.get? t.unit = some target → target = t.target) :
      d.Grows { d with samplers := d.samplers.insert t.unit t.target } :=
    { Grows.refl d with
      samplers := fun unit target e => by
        rw [SortedMap.get?_insert]
        split
        · rename_i hu
          rw [hold target (hu ▸ e)]
        · exact e }
  have done (hg : d.Grows { d with samplers := d.samplers.insert t.unit t.target }) :
      d.Grows { d with samplers := d.samplers.insert t.unit t.target } ∧
      ({ d with samplers := d.samplers.insert t.unit t.target } : Draft).WellFormed kind limits ∧
      (d.samplers.insert t.unit t.target).get? t.unit = some t.target :=
    ⟨hg, hd.of_grows hg rfl rfl, by simp⟩
  unfold sample at h
  dsimp only at h
  split at h
  · rename_i hnone
    cases h
    exact done (note fun target e => by simp [hnone] at e)
  · rename_i target hsome
    split at h
    · rename_i he
      cases h
      exact done (note fun target' e => by rw [hsome] at e; cases e; exact he)
    · cases h

/-- The feature that a write brings with it is on behind it. -/
theorem write_grows {k : VariableKind} (hd : d.WellFormed kind limits)
    (h : d.write k = .ok d') :
    d.Grows d' ∧ d'.WellFormed kind limits ∧ d'.special.Notes k := by
  unfold write at h
  split at h
  · split at h
    · cases h
    · cases h
      exact ⟨.refl _, hd, trivial⟩
  · cases h
    have hg : d.Grows { d with special := { d.special with writesFogCoord := true } } :=
      { Grows.refl d with writesFogCoord := fun _ => rfl }
    exact ⟨hg, hd.of_grows hg rfl rfl, rfl⟩
  · cases h
    have hg : d.Grows { d with special := { d.special with writesDepth := true } } :=
      { Grows.refl d with writesDepth := fun _ => rfl }
    exact ⟨hg, hd.of_grows hg rfl rfl, rfl⟩
  · rename_i hfog hdepth
    cases h
    refine ⟨.refl _, hd, ?_⟩
    unfold SpecialCases.Notes
    split
    · exact absurd rfl hfog
    · exact absurd rfl hdepth
    · trivial

theorem push_grows {i : Instruction} (hd : d.WellFormed kind limits)
    (hi : i.WellFormed limits (d.toModel kind)) :
    d.Grows (d.push i) ∧ (d.push i).WellFormed kind limits := by
  have hg : d.Grows (d.push i) :=
    { Grows.refl d with instructions := List.prefix_append _ _ }
  refine ⟨hg, ⟨hd.model.vars, hd.model.names, ?_⟩, hd.named⟩
  intro j hj
  rcases List.mem_append.1 hj with hj | hj
  · exact (hd.model.instructions j hj).mono hg
  · rw [List.mem_singleton.1 hj]
    exact hi.mono hg

/-! ## Options -/

theorem setOption_grows {name : String} (hd : d.WellFormed kind limits)
    (h : d.setOption kind name = .ok d') : d.Grows d' ∧ d'.WellFormed kind limits := by
  have fog (mode : FogMode) (hfog : d.special.fog = .none) :
      d.Grows { d with special := { d.special with fog := mode } } :=
    { Grows.refl d with fog := fun hne => absurd hfog hne }
  have mixes (mode : FogMode) (e : (if d.special.fog = .none then
      pure { d with special := { d.special with fog := mode } }
      else throw Cause.conflictingFog : Except Cause Draft) = .ok d') :
      d.Grows d' ∧ d'.WellFormed kind limits := by
    split at e
    · rename_i hfog
      cases e
      exact ⟨fog mode hfog, hd.of_grows (fog mode hfog) rfl rfl⟩
    · cases e
  have hints (e : (if d.precisionHint then throw Cause.conflictingPrecision
      else pure { d with precisionHint := true } : Except Cause Draft) = .ok d') :
      d.Grows d' ∧ d'.WellFormed kind limits := by
    split at e
    · cases e
    · cases e
      have hg : d.Grows { d with precisionHint := true } := { Grows.refl d with }
      exact ⟨hg, hd.of_grows hg rfl rfl⟩
  unfold setOption at h
  dsimp only at h
  split at h
  · cases h
    have hg : d.Grows { d with special := { d.special with positionInvariant := true } } :=
      { Grows.refl d with positionInvariant := fun _ => rfl }
    exact ⟨hg, hd.of_grows hg rfl rfl⟩
  · exact mixes .exp h
  · exact mixes .exp2 h
  · exact mixes .linear h
  · exact hints h
  · exact hints h
  · cases h

end ShaderAssembly.Draft
