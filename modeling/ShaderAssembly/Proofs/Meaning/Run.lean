import ShaderAssembly.Proofs.Generation.Program
import ShaderAssembly.Proofs.Meaning.Instruction
/-!
# What programs do

* `Runs`: a machine before and behind some instructions, if all their relative places are in range;
* `Store.HasVector`: an assignment never changes the type of a variable;
* **`statements_exec`**: the statements of some instructions lead to a store that represents the
  machine behind them, or discard the fragment with them.
-/

namespace ShaderAssembly

variable {K : Type} [Field K] [LinearOrder K]

/-- Instructions lead from a machine to another one, or discard the fragment; their relative places
are in range. -/
inductive Runs (B : Builtins K) (m : Model) : Machine K → List Instruction → Option (Machine K) → Prop
  | done (M) : Runs B m M [] (some M)
  | discard {M i} (is) : (∀ s ∈ i.sources, M.InRange m s.register) → i.effect B M m = none →
      Runs B m M (i :: is) none
  | step {M M' i is r} : (∀ s ∈ i.sources, M.InRange m s.register) → i.effect B M m = some M' →
      Runs B m M' is r → Runs B m M (i :: is) r

namespace Glsl

variable {B : Builtins K} {σ σ' : Store K}

/-! ## Lines one after the other -/

theorem execLines_append {ls : List Line} (h : execLines B σ ls = some (.running σ'))
    (more : List Line) : execLines B σ (ls ++ more) = execLines B σ' more := by
  induction ls generalizing σ with
  | nil =>
    cases h
    rfl
  | cons l ls ih =>
    rw [List.cons_append, execLines]
    rw [execLines] at h
    cases hl : l.exec B σ with
    | none =>
      rw [hl] at h
      cases h
    | some outcome =>
      rw [hl] at h
      cases outcome with
      | running σ'' => exact ih h
      | discarded => cases h

/-! ## Types -/

/-- A variable holds a vector of a length, or a number if the length is one. -/
def Store.HasVector (σ : Store K) (n : String) (k : Nat) : Prop :=
  ∃ cs, σ n = some (.reals cs) ∧ cs.length = k

theorem write_hasVector {n : String} {k : Nat} {e : Expr} {v : Value K}
    (h : e.write B σ v = some σ') (hn : σ.HasVector n k) : σ'.HasVector n k := by
  induction e generalizing v with
  | name s =>
    obtain ⟨cs, hcs, hlength⟩ := hn
    obtain ⟨old, hold, h⟩ := Option.bind_eq_some_iff.1 h
    split at h
    · rename_i htype
      cases h
      by_cases hname : n = s
      · subst hname
        rw [hcs] at hold
        cases hold
        cases v with
        | reals as =>
          have hsame : cs.length = as.length := by simpa [Value.sameType] using htype
          exact ⟨as, Store.set_self _ _ _, by rw [← hsame, hlength]⟩
        | bools | int | address | array | sampler => cases htype
      · exact ⟨cs, by rw [Store.set_ne _ _ hname, hcs], hlength⟩
    · cases h
  | field e selector ih =>
    obtain ⟨old, -, hold⟩ := Option.bind_eq_some_iff.1 h
    obtain ⟨new, -, hwrite⟩ := Option.bind_eq_some_iff.1 hold
    exact ih hwrite
  | element e i ih _ =>
    obtain ⟨old, -, hold⟩ := Option.bind_eq_some_iff.1 h
    obtain ⟨place, -, hplace⟩ := Option.bind_eq_some_iff.1 hold
    obtain ⟨new, -, hwrite⟩ := Option.bind_eq_some_iff.1 hplace
    exact ih hwrite
  | _ => cases h

theorem exec_hasVector {n : String} {k : Nat} {l : Line} (h : l.exec B σ = some (.running σ'))
    (hn : σ.HasVector n k) : σ'.HasVector n k := by
  cases l with
  | assign target value =>
    obtain ⟨v, -, hv⟩ := Option.bind_eq_some_iff.1 h
    obtain ⟨σ'', hwrite, hrunning⟩ := Option.bind_eq_some_iff.1 hv
    cases hrunning
    exact write_hasVector hwrite hn
  | discardIf condition =>
    obtain ⟨v, -, hv⟩ := Option.bind_eq_some_iff.1 h
    split at hv
    · rename_i b
      cases b with
      | false =>
        cases hv
        exact hn
      | true => cases hv
    · cases hv
  | closeMain =>
    cases h
    exact hn
  | _ => cases h

/-- **No statement changes the type of a variable.** -/
theorem execLines_hasVector {n : String} {k : Nat} {ls : List Line}
    (h : execLines B σ ls = some (.running σ')) (hn : σ.HasVector n k) : σ'.HasVector n k := by
  induction ls generalizing σ with
  | nil =>
    cases h
    exact hn
  | cons l ls ih =>
    obtain ⟨outcome, hl, h⟩ := Option.bind_eq_some_iff.1 h
    cases outcome with
    | running σ'' => exact ih h (exec_hasVector hl hn)
    | discarded => cases h

/-! ## Statements -/

variable {m : Model} {limits : Limits} {M : Machine K} [IsStrictOrderedRing K]

/-- **The statements of some instructions do what the instructions do.** -/
theorem statements_exec (hm : m.WellFormed limits) {is : List Instruction} {r : Option (Machine K)}
    (h : Runs B m M is r) (hM : Represents m M σ)
    (his : ∀ i ∈ is, i.WellFormed limits m ∧ biasesRectangle i = false) :
    (r = none ∧ execLines B σ (is.filterMap fun i => (statement m i).toOption) = some .discarded) ∨
      ∃ M' σ', r = some M' ∧ Represents m M' σ' ∧
        execLines B σ (is.filterMap fun i => (statement m i).toOption) = some (.running σ') := by
  induction h generalizing σ with
  | done M => exact .inr ⟨M, σ, rfl, hM, rfl⟩
  | discard is hrange heffect =>
    obtain ⟨hi, hrect⟩ := his _ List.mem_cons_self
    obtain ⟨line, hline, -, hperforms⟩ := statement_performs (B := B) hm hM hi hrange hrect
    rw [Performs, heffect] at hperforms
    rw [List.filterMap_cons_some (by rw [hline]; rfl), execLines, hperforms]
    exact .inl ⟨rfl, rfl⟩
  | step hrange heffect _ ih =>
    obtain ⟨hi, hrect⟩ := his _ List.mem_cons_self
    obtain ⟨line, hline, -, hperforms⟩ := statement_performs (B := B) hm hM hi hrange hrect
    rw [Performs, heffect] at hperforms
    obtain ⟨σ', hexec, hM', -⟩ := hperforms
    rw [List.filterMap_cons_some (by rw [hline]; rfl), execLines, hexec]
    exact ih hM' fun i hi => his i (List.mem_cons_of_mem _ hi)

end Glsl

end ShaderAssembly
