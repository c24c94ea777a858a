import ShaderAssembly.Proofs.Comparison.Draft
/-!
# Steps side by side

* **`Parse.Follows`**: from progress that is alike, what the first step reads the second one reads
  too, and the drafts behind them are alike; under the same limits they refuse together;
* one rule for each way of putting steps together;
* `Parse.resolve_follows`, `Parse.implicit_follows`: the variable of a name and of a binding.
-/

namespace ShaderAssembly

variable {α β : Type} {Γ : Comparison}

/-- Progress with cursors and drafts that are alike. -/
structure Comparison.SameProgress (Γ : Comparison) (p p' : Progress) : Prop where
  cursor : Γ.Beside p.cursor p'.cursor
  draft : Γ.SameDraft p.draft p'.draft

/-- From `p` and `p'`, what the first step reads the second one reads too, and their values have
`R`; under the same limits they also refuse together, for the same reason. -/
def Parse.FollowsAt (Γ : Comparison) (p p' : Progress) (step step' : Parse α) (R : α → α → Prop) :
    Prop :=
  match step p with
  | .ok a q => ∃ a' q', step' p' = .ok a' q' ∧ Γ.SameProgress q q' ∧ R a a'
  | .error f _ => Γ.limits = Γ.limits' → ∃ f' q', step' p' = .error f' q' ∧ Γ.Blames f f'

/-- Steps that follow each other from all progress that is alike. -/
def Parse.Follows (Γ : Comparison) (step step' : Parse α) (R : α → α → Prop) : Prop :=
  ∀ p p', Γ.SameProgress p p' → FollowsAt Γ p p' step step' R

namespace Parse

/-! ## Rules -/

theorem FollowsAt.of_refuse {p p' : Progress} {cause cause' : Cause} {offset offset' : Nat}
    {R : α → α → Prop} (hc : cause.message = cause'.message) (ho : Γ.place offset offset') :
    FollowsAt Γ p p' (refuse cause offset) (refuse cause' offset') R :=
  fun _ => ⟨⟨cause', offset'⟩, p', rfl, hc, ho⟩

theorem FollowsAt.mono {p p' : Progress} {step step' : Parse α} {R Q : α → α → Prop}
    (h : FollowsAt Γ p p' step step' R) (hQ : ∀ a a', R a a' → Q a a') :
    FollowsAt Γ p p' step step' Q := by
  unfold FollowsAt at h ⊢
  cases e : step p with
  | ok a q =>
    rw [e] at h
    obtain ⟨a', q', e', hq, ha⟩ := h
    exact ⟨a', q', e', hq, hQ a a' ha⟩
  | error f q =>
    rw [e] at h
    exact h

theorem FollowsAt.bind {p p' : Progress} {step step' : Parse α} {f f' : α → Parse β}
    {R : α → α → Prop} {Q : β → β → Prop} (h : FollowsAt Γ p p' step step' R)
    (hf : ∀ a q a' q', step p = .ok a q → Γ.SameProgress q q' → R a a' →
      FollowsAt Γ q q' (f a) (f' a') Q) :
    FollowsAt Γ p p' (step >>= f) (step' >>= f') Q := by
  unfold FollowsAt at h ⊢
  simp only [Bind.bind, EStateM.bind]
  cases e : step p with
  | ok a q =>
    rw [e] at h
    obtain ⟨a', q', e', hq, ha⟩ := h
    rw [e']
    exact hf a q a' q' e hq ha
  | error g q =>
    rw [e] at h
    intro hl
    obtain ⟨g', q', e', hg⟩ := h hl
    exact ⟨g', q', by rw [e'], hg⟩

theorem FollowsAt.of_edit {p p' : Progress} (hp : Γ.SameProgress p p')
    {change change' : Draft → Except Cause Draft} {offset offset' : Nat}
    (h : Γ.Changes (change p.draft) (change' p'.draft)) (ho : Γ.place offset offset') :
    FollowsAt Γ p p' (edit change offset) (edit change' offset') Eq := by
  unfold FollowsAt
  rw [edit_eq, edit_eq]
  cases e : change p.draft with
  | ok d =>
    rw [e] at h
    obtain ⟨d', e', hd⟩ := h
    rw [e']
    exact ⟨(), _, rfl, ⟨hp.cursor, hd⟩, rfl⟩
  | error cause =>
    rw [e] at h
    intro hl
    obtain ⟨cause', e', hc⟩ := h hl
    rw [e']
    exact ⟨_, _, rfl, hc, ho⟩

namespace Follows

theorem of_pure {a a' : α} {R : α → α → Prop} (h : R a a') : Follows Γ (pure a) (pure a') R :=
  fun _ p' hp => ⟨a', p', rfl, hp, h⟩

theorem of_eq (a : α) : Follows Γ (pure a) (pure a) Eq := of_pure rfl

theorem of_refuse {cause cause' : Cause} {offset offset' : Nat} {R : α → α → Prop}
    (hc : cause.message = cause'.message) (ho : Γ.place offset offset') :
    Follows Γ (refuse cause offset) (refuse cause' offset') R :=
  fun _ _ _ => .of_refuse hc ho

/-- Scans that follow each other leave the drafts alike. -/
theorem of_scan {scan scan' : Scan α} {R : α → α → Prop} (h : scan.Follows Γ scan' R) :
    Follows Γ (liftM scan) (liftM scan') R := by
  intro p p' hp
  have h := h p.cursor p'.cursor hp.cursor
  rw [FollowsAt, lift_eq, lift_eq]
  cases e : scan p.cursor with
  | ok a c =>
    rw [e] at h
    obtain ⟨a', c', e', hc, ha⟩ := h
    rw [e']
    exact ⟨a', _, rfl, ⟨hc, hp.draft⟩, ha⟩
  | error f c =>
    rw [e] at h
    intro hl
    obtain ⟨f', c', e', hf⟩ := h hl
    rw [e']
    exact ⟨f', _, rfl, hf⟩

theorem of_unexpected {wanted : String} {found found' : Token} {R : α → α → Prop}
    (h : Γ.Alike found found') :
    Follows Γ (liftM (Scan.unexpected wanted found : Scan α))
      (liftM (Scan.unexpected wanted found' : Scan α)) R :=
  of_scan (.of_unexpected h)

theorem bind {step step' : Parse α} {f f' : α → Parse β} {R : α → α → Prop} {Q : β → β → Prop}
    (h : Follows Γ step step' R) (hf : ∀ a a', R a a' → Follows Γ (f a) (f' a') Q) :
    Follows Γ (step >>= f) (step' >>= f') Q :=
  fun p p' hp => (h p p' hp).bind fun a q a' q' _ hq ha => hf a a' ha q q' hq

theorem bindEq {step step' : Parse α} {f f' : α → Parse β} {Q : β → β → Prop}
    (h : Follows Γ step step' Eq) (hf : ∀ a, Follows Γ (f a) (f' a) Q) :
    Follows Γ (step >>= f) (step' >>= f') Q := h.bind fun a _ e => e ▸ hf a

theorem scan {scan scan' : Scan α} {f f' : α → Parse β} {R : α → α → Prop} {Q : β → β → Prop}
    (h : scan.Follows Γ scan' R) (hf : ∀ a a', R a a' → Follows Γ (f a) (f' a') Q) :
    Follows Γ (liftM scan >>= f) (liftM scan' >>= f') Q := (of_scan h).bind hf

theorem scanEq {scan scan' : Scan α} {f f' : α → Parse β} {Q : β → β → Prop}
    (h : scan.Follows Γ scan' Eq) (hf : ∀ a, Follows Γ (f a) (f' a) Q) :
    Follows Γ (liftM scan >>= f) (liftM scan' >>= f') Q := (of_scan h).bindEq hf

/-- A step that is not refused by a check in the second reading unless it is in the first. -/
theorem guard {p p' : Prop} {_ : Decidable p} {_ : Decidable p'} {cause cause' : Cause}
    {offset offset' : Nat} {f f' : Unit → Parse β} {Q : β → β → Prop} (hp : p' → p)
    (hp' : Γ.limits = Γ.limits' → p → p' ∧ cause.message = cause'.message)
    (ho : Γ.place offset offset') (hf : Follows Γ (f ()) (f' ()) Q) :
    Follows Γ (if p then refuse cause offset >>= f else f ())
      (if p' then refuse cause' offset' >>= f' else f' ()) Q := by
  by_cases h : p
  · rw [if_pos h]
    intro q q' _ hl
    rw [if_pos (hp' hl h).1]
    exact ⟨⟨cause', offset'⟩, q', rfl, (hp' hl h).2, ho⟩
  · rw [if_neg h, if_neg fun h' => h (hp h')]
    exact hf

theorem check {p : Prop} {_ : Decidable p} {cause cause' : Cause} {offset offset' : Nat}
    {f f' : Unit → Parse β} {Q : β → β → Prop} (hc : cause.message = cause'.message)
    (ho : Γ.place offset offset') (hf : Follows Γ (f ()) (f' ()) Q) :
    Follows Γ (if p then refuse cause offset >>= f else f ())
      (if p then refuse cause' offset' >>= f' else f' ()) Q :=
  guard id (fun _ h => ⟨h, hc⟩) ho hf

theorem checkToken {p : Prop} {_ : Decidable p} {wanted : String} {found found' : Token}
    {f f' : Unit → Parse β} {Q : β → β → Prop} (h : Γ.Alike found found')
    (hf : Follows Γ (f ()) (f' ()) Q) :
    Follows Γ (if p then liftM (Scan.unexpected wanted found : Scan Unit) >>= f else f ())
      (if p then liftM (Scan.unexpected wanted found' : Scan Unit) >>= f' else f' ()) Q := by
  split
  · exact (of_unexpected h).bind (R := fun _ _ => False) fun _ _ h => h.elim
  · exact hf

theorem draft_bind {f f' : Draft → Parse β} {Q : β → β → Prop}
    (h : ∀ d d', Γ.SameDraft d d' → Follows Γ (f d) (f' d') Q) :
    Follows Γ (draft >>= f) (draft >>= f') Q :=
  fun p p' hp => h p.draft p'.draft hp.draft p p' hp

theorem of_edit {change change' : Draft → Except Cause Draft} {offset offset' : Nat}
    (h : ∀ d d', Γ.SameDraft d d' → Γ.Changes (change d) (change' d'))
    (ho : Γ.place offset offset') :
    Follows Γ (edit change offset) (edit change' offset') Eq :=
  fun _ _ hp => .of_edit hp (h _ _ hp.draft) ho

end Follows

/-! ## Variables -/

theorem eq_of_resolve {name : Token} {p q : Progress} {r : Nat × Variable}
    (e : resolve name p = .ok r q) : q = p := by
  obtain ⟨_, _, ⟨⟩, e⟩ := bind_eq_ok.1 e
  cases h : p.draft.lookup? name.text with
  | some r =>
    simp only [h] at e
    cases e
    rfl
  | none =>
    simp only [h] at e
    cases e

/-- A name stands for variables that are alike, and for a declared one in each reading. -/
theorem resolve_followsAt {p p' : Progress} (hp : Γ.SameProgress p p') {name name' : Token}
    (h : Γ.Alike name name') : FollowsAt Γ p p' (resolve name) (resolve name')
      fun r r' => r.1 = r'.1 ∧ p.draft.vars[r.1]? = some r.2 ∧ r.2.implicit = false ∧
        Γ.SameVariable r.2 r'.2 := by
  have hlookup := hp.draft.lookup? name.text
  unfold resolve
  rw [h.text]
  refine .bind (R := fun d d' => d = p.draft ∧ d' = p'.draft) ⟨_, p', rfl, hp, rfl, rfl⟩ ?_
  rintro _ q _ q' e hq ⟨rfl, rfl⟩
  generalize p.draft.lookup? name.text = r, p'.draft.lookup? name.text = r' at hlookup
  cases hlookup with
  | none => exact .of_refuse rfl h.place
  | some hr => exact ⟨_, q', rfl, hq, hr⟩

/-- A name stands for variables of one kind, at one place and under one name. -/
theorem resolve_follows {name name' : Token} (h : Γ.Alike name name') :
    Follows Γ (resolve name) (resolve name')
      fun r r' => r'.1 = r.1 ∧ r'.2.kind = r.2.kind ∧ r'.2.name = r.2.name := by
  intro p p' hp
  refine (resolve_followsAt hp h).mono ?_
  rintro r r' ⟨hi, -, himplicit, hv⟩
  exact ⟨hi.symm, hv.kind, hv.name (.inl himplicit)⟩

/-- The variable of a binding has the same place in both readings. -/
theorem implicit_follows (k : VariableKind) {start start' : Nat} (h : Γ.place start start') :
    Follows Γ (implicit k start) (implicit k start') Eq := by
  intro p p' hp
  have htext (same : Γ.sameText) : p'.cursor.textFrom start' = p.cursor.textFrom start := by
    rw [Cursor.textFrom, Cursor.textFrom, hp.cursor.source same, hp.cursor.current.eq same,
      Γ.eq_of_place same h]
  unfold FollowsAt
  rw [implicit_eq, implicit_eq, hp.draft.implied?]
  cases p.draft.implied? k with
  | some i => exact ⟨i, p', rfl, hp, rfl⟩
  | none => exact ⟨_, _, rfl, ⟨hp.cursor, hp.draft.imply k htext h⟩, hp.draft.vars.length_eq⟩

end Parse

end ShaderAssembly
