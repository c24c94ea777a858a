import ShaderAssembly.Proofs.Parsing.Equation
import ShaderAssembly.Proofs.WellFormed
/-!
# What a step of reading leaves behind

* `Scan.Gives scan Q`: the values of a scan have `Q`;
* **`Parse.Keeps kind limits d₀ step Q`**: from a well-formed draft that has grown out of `d₀`, a step
  leads to a well-formed draft that has grown further, also when it is refused; if it is not, its
  value and the draft behind it have `Q`;
* one rule for each way of putting steps together.
-/

namespace ShaderAssembly

variable {α β : Type}

/-! ## Scans -/

/-- The values of a scan have `Q`. -/
def Scan.Gives (scan : Scan α) (Q : α → Prop) : Prop := ∀ c a c', scan c = .ok a c' → Q a

namespace Scan.Gives

theorem of_true (scan : Scan α) : Gives scan fun _ => True := fun _ _ _ _ => trivial

theorem weaken {scan : Scan α} {Q R : α → Prop} (h : Gives scan Q) (hQ : ∀ a, Q a → R a) :
    Gives scan R := fun c a c' e => hQ a (h c a c' e)

theorem of_pure {a : α} {Q : α → Prop} (h : Q a) : Gives (pure a) Q := fun _ _ _ e => by
  cases e
  exact h

theorem of_refuse {cause : Cause} {offset : Nat} {Q : α → Prop} : Gives (Scan.refuse cause offset) Q := by
  intro _ _ _ e
  cases e

theorem of_unexpected {wanted : String} {found : Token} {Q : α → Prop} :
    Gives (Scan.unexpected wanted found) Q := of_refuse

theorem bind {scan : Scan α} {f : α → Scan β} {Q : α → Prop} {R : β → Prop} (h : Gives scan Q)
    (hf : ∀ a, Q a → Gives (f a) R) : Gives (scan >>= f) R := by
  intro c b c' e
  simp only [Bind.bind, EStateM.bind] at e
  cases hc : scan c with
  | ok a c₁ =>
    rw [hc] at e
    exact hf a (h c a c₁ hc) c₁ b c' e
  | error g c₁ =>
    rw [hc] at e
    cases e

theorem skip {scan : Scan α} {f : α → Scan β} {R : β → Prop} (hf : ∀ a, Gives (f a) R) :
    Gives (scan >>= f) R := (of_true scan).bind fun a _ => hf a

theorem refuse_bind {cause : Cause} {offset : Nat} {f : α → Scan β} {R : β → Prop} :
    Gives (Scan.refuse cause offset >>= f) R := of_refuse.bind (Q := fun _ => False) fun _ h => h.elim

theorem unexpected_bind {wanted : String} {found : Token} {f : α → Scan β} {R : β → Prop} :
    Gives (Scan.unexpected wanted found >>= f) R := refuse_bind

theorem guard {p : Prop} {_ : Decidable p} {cause : Cause} {offset : Nat} {f : Unit → Scan β}
    {R : β → Prop} (h : ¬ p → Gives (f ()) R) :
    Gives (if p then Scan.refuse cause offset >>= f else f ()) R := by
  split
  · exact refuse_bind
  · rename_i hp
    exact h hp

end Scan.Gives

/-! ## Steps that add to a draft -/

variable (kind : ProgramKind) (limits : Limits)

/-- From a well-formed draft that has grown out of `d₀`, the step leads to a well-formed draft that
has grown further; if it is not refused, its value and the draft behind it have `Q`. -/
def Parse.Keeps (d₀ : Draft) (step : Parse α) (Q : α → Draft → Prop) : Prop :=
  ∀ p, d₀.Grows p.draft → p.draft.WellFormed kind limits →
    match step p with
    | .ok a p' => p.draft.Grows p'.draft ∧ p'.draft.WellFormed kind limits ∧ Q a p'.draft
    | .error _ p' => p.draft.Grows p'.draft ∧ p'.draft.WellFormed kind limits

namespace Parse.Keeps

variable {kind limits} {d₀ : Draft}

theorem of_pure {a : α} {Q : α → Draft → Prop} (h : ∀ d, d₀.Grows d → Q a d) :
    Keeps kind limits d₀ (pure a) Q := fun _ hp hw => ⟨.refl _, hw, h _ hp⟩

theorem of_refuse {cause : Cause} {offset : Nat} {Q : α → Draft → Prop} :
    Keeps kind limits d₀ (Parse.refuse cause offset) Q := fun _ _ hw => ⟨.refl _, hw⟩

theorem of_scan {scan : Scan α} {Q : α → Draft → Prop}
    (h : scan.Gives fun a => ∀ d, d₀.Grows d → Q a d) : Keeps kind limits d₀ (liftM scan) Q := by
  intro p hp hw
  rw [lift_eq]
  cases e : scan p.cursor with
  | ok a c => exact ⟨.refl _, hw, h _ _ _ e _ hp⟩
  | error f c => exact ⟨.refl _, hw⟩

theorem of_unexpected {wanted : String} {found : Token} {Q : α → Draft → Prop} :
    Keeps kind limits d₀ (liftM (Scan.unexpected wanted found : Scan α)) Q :=
  of_scan Scan.Gives.of_unexpected

theorem bind {step : Parse α} {f : α → Parse β} {Q : α → Draft → Prop} {R : β → Draft → Prop}
    (h : Keeps kind limits d₀ step Q)
    (hf : ∀ a d₁, d₀.Grows d₁ → Q a d₁ → Keeps kind limits d₁ (f a) R) :
    Keeps kind limits d₀ (step >>= f) R := by
  intro p hp hw
  have h₁ := h p hp hw
  simp only [Bind.bind, EStateM.bind]
  cases e : step p with
  | error g p₁ =>
    rw [e] at h₁
    exact h₁
  | ok a p₁ =>
    rw [e] at h₁
    have h₂ := hf a p₁.draft (hp.trans h₁.1) h₁.2.2 p₁ (.refl _) h₁.2.1
    dsimp only
    split at h₂
    · exact ⟨h₁.1.trans h₂.1, h₂.2⟩
    · exact ⟨h₁.1.trans h₂.1, h₂.2⟩

/-- A scan before a step. -/
theorem scan_bind {scan : Scan α} {f : α → Parse β} {Q : α → Prop} {R : β → Draft → Prop}
    (h : scan.Gives Q) (hf : ∀ a, Q a → Keeps kind limits d₀ (f a) R) :
    Keeps kind limits d₀ (liftM scan >>= f) R := by
  refine bind (Q := fun a d => Q a) (of_scan (h.weaken fun a ha _ _ => ha)) ?_
  intro a d₁ hd ha p hp hw
  exact hf a ha p (hd.trans hp) hw

theorem skip {scan : Scan α} {f : α → Parse β} {R : β → Draft → Prop}
    (hf : ∀ a, Keeps kind limits d₀ (f a) R) : Keeps kind limits d₀ (liftM scan >>= f) R :=
  scan_bind (.of_true scan) fun a _ => hf a

theorem pure_bind {a : α} {f : α → Parse β} {R : β → Draft → Prop}
    (h : Keeps kind limits d₀ (f a) R) : Keeps kind limits d₀ (pure a >>= f) R := h

theorem refuse_bind {cause : Cause} {offset : Nat} {f : α → Parse β} {R : β → Draft → Prop} :
    Keeps kind limits d₀ (Parse.refuse cause offset >>= f) R :=
  bind (Q := fun _ _ => False) of_refuse fun _ _ _ h => h.elim

theorem unexpected_bind {wanted : String} {found : Token} {f : α → Parse β}
    {R : β → Draft → Prop} :
    Keeps kind limits d₀ (liftM (Scan.unexpected wanted found : Scan α) >>= f) R :=
  scan_bind (Q := fun _ => False) .of_unexpected fun _ h => h.elim

theorem guard {p : Prop} {_ : Decidable p} {cause : Cause} {offset : Nat} {f : Unit → Parse β}
    {R : β → Draft → Prop} (h : ¬ p → Keeps kind limits d₀ (f ()) R) :
    Keeps kind limits d₀ (if p then Parse.refuse cause offset >>= f else f ()) R := by
  split
  · exact refuse_bind
  · rename_i hp
    exact h hp

theorem guard_token {p : Prop} {_ : Decidable p} {wanted : String} {found : Token}
    {f : Unit → Parse β} {R : β → Draft → Prop} (h : ¬ p → Keeps kind limits d₀ (f ()) R) :
    Keeps kind limits d₀
      (if p then liftM (Scan.unexpected wanted found : Scan Unit) >>= f else f ()) R := by
  split
  · exact unexpected_bind
  · rename_i hp
    exact h hp

theorem draft_bind {f : Draft → Parse β} {R : β → Draft → Prop}
    (h : ∀ d, d₀.Grows d → d.WellFormed kind limits → Keeps kind limits d (f d) R) :
    Keeps kind limits d₀ (Parse.draft >>= f) R :=
  fun p hp hw => h p.draft hp hw p (.refl _) hw

/-- A step that looks at where it stands. -/
theorem get_bind {f : Progress → Parse β} {R : β → Draft → Prop}
    (h : ∀ p, Keeps kind limits d₀ (f p) R) : Keeps kind limits d₀ (get >>= f) R :=
  fun p hp hw => h p p hp hw

/-- A change of the draft that leaves a well-formed draft well-formed. -/
theorem of_edit {change : Draft → Except Cause Draft} {offset : Nat} {Q : Draft → Prop}
    (h : ∀ d d', d₀.Grows d → d.WellFormed kind limits → change d = .ok d' →
      d.Grows d' ∧ d'.WellFormed kind limits ∧ Q d') :
    Keeps kind limits d₀ (Parse.edit change offset) fun _ d => Q d := by
  intro p hp hw
  cases e : change p.draft with
  | ok d =>
    rw [edit_eq, e]
    exact h p.draft d hp hw e
  | error cause =>
    rw [edit_eq, e]
    exact ⟨.refl _, hw⟩

end Parse.Keeps

end ShaderAssembly
