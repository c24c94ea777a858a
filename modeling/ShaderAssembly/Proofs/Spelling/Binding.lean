import ShaderAssembly.Proofs.Framing.Statement
/-!
# Bindings in the text

* `Cursor.Takes`, `Cursor.IsOver`: where moving on leads, token by token, unless the text is over;
* **`VariableKind.ReadAt`**: where a binding can be read;
* `VariableKind.ReadAt.unique`, `VariableKind.ReadAt.inside`: what is read there is one binding, and no
  other one starts inside it.
-/

namespace ShaderAssembly

/-! ## Moving on -/

namespace Cursor

variable {c d e : Cursor} {ts us : List Token}

/-- Behind the tokens `used` the cursor `c` has become `d`. -/
def Takes (c : Cursor) (used : List Token) (d : Cursor) : Prop :=
  c.rest = used ++ d.rest ∧ d = advance^[used.length] c

/-- The cursor stands behind the last token. -/
def IsOver (c : Cursor) : Prop := c.rest = [] ∧ c.current = c.endToken

theorem Takes.refl (c : Cursor) : c.Takes [] c := ⟨rfl, rfl⟩

theorem takes_advance {t : Token} (h : c.rest = t :: ts) : c.Takes [t] c.advance :=
  ⟨by rw [h, advance, h]; rfl, rfl⟩

theorem Takes.trans (h : c.Takes ts d) (h' : d.Takes us e) : c.Takes (ts ++ us) e := by
  obtain ⟨hrest, rfl⟩ := h
  obtain ⟨hrest', rfl⟩ := h'
  refine ⟨by rw [hrest, hrest', List.append_assoc], ?_⟩
  rw [List.length_append, Nat.add_comm, Function.iterate_add_apply]

/-- Moving on keeps the text, and the current token is the last one that was taken. -/
theorem Takes.source_current (h : c.Takes ts d) :
    d.source = c.source ∧ d.current = (c.current :: ts).getLast (List.cons_ne_nil _ _) := by
  induction ts generalizing c with
  | nil =>
    obtain ⟨-, rfl⟩ := h
    exact ⟨rfl, rfl⟩
  | cons t ts ih =>
    obtain ⟨hrest, rfl⟩ := h
    have hupcoming : c.advance.current = t := by
      rw [advance, upcoming, hrest]
      rfl
    obtain ⟨hsource, hcurrent⟩ := ih (c := c.advance) ⟨by rw [advance, hrest]; rfl, rfl⟩
    refine ⟨hsource, hcurrent.trans ?_⟩
    simp only [hupcoming, List.getLast_cons_cons]

theorem IsOver.advance_eq (h : c.IsOver) : c.advance = c := by
  have hupcoming : c.upcoming = c.current := by
    rw [upcoming, h.1, h.2]
    rfl
  have htail : c.rest.tail = c.rest := by
    rw [h.1]
    rfl
  rw [advance, hupcoming, htail]

/-- Behind the last token nothing moves any more. -/
theorem IsOver.eq_of_leadsTo (h : c.IsOver) (hd : c.LeadsTo d) : d = c := by
  obtain ⟨n, rfl⟩ := hd
  induction n with
  | zero => rfl
  | succ n ih => rw [Function.iterate_succ_apply, h.advance_eq, ih]

theorem takes_or_isOver_advance (c : Cursor) :
    (∃ t, c.Takes [t] c.advance ∧ c.upcoming = t) ∨ c.advance.IsOver := by
  cases h : c.rest with
  | nil => exact .inr ⟨by rw [advance, h]; rfl, by simp [advance, upcoming, endToken, h]⟩
  | cons t ts => exact .inl ⟨t, takes_advance h, by simp [upcoming, h]⟩

theorem LeadsTo.takes_or_isOver (h : c.LeadsTo d) : (∃ used, c.Takes used d) ∨ d.IsOver := by
  obtain ⟨n, rfl⟩ := h
  induction n with
  | zero => exact .inl ⟨[], .refl c⟩
  | succ n ih =>
    rw [Function.iterate_succ_apply']
    obtain ⟨used, h⟩ | hover := ih
    · obtain ⟨t, ht, -⟩ | hover := takes_or_isOver_advance (advance^[n] c)
      · exact .inl ⟨used ++ [t], h.trans ht⟩
      · exact .inr hover
    · rw [hover.advance_eq]
      exact .inr hover

end Cursor

/-! ## Where bindings are read -/

namespace Scan

variable (kind : ProgramKind) (limits : Limits)

/-- Reads what an operand may read behind the root of a binding: the binding as a kind of variable. -/
def bindingOf (root : Token) : Scan VariableKind := do
  if root.text ∈ ["vertex", "fragment"] then return .input (← inputBinding kind limits root)
  else if root.text ∈ ["state", "program"] then return .param (← singleParam limits root)
  else if root.text = "result" then return .output (← outputBinding kind limits)
  else unexpected "a binding" root

instance (root : Token) : Avoids Token.IsForeign (bindingOf kind limits root) := by
  unfold bindingOf
  infer_instance

variable {kind limits} {c d : Cursor}

theorem mem_bindingRoots_of_bindingOf {root : Token} {k : VariableKind}
    (e : bindingOf kind limits root c = .ok k d) : root.text ∈ bindingRoots := by
  by_contra hroot
  simp only [bindingRoots, List.mem_cons, List.not_mem_nil, or_false, not_or] at hroot
  simp only [bindingOf, List.mem_cons, List.not_mem_nil, or_false, hroot, if_false] at e
  cases e

/-- A point and a word stand where a scan reads them, and the word is not `x` if that is refused. -/
theorem exists_rest_of_behindPoint {α : Type} {wanted wanted' : String} {f : Token → Scan α} {a : α}
    (hf : ∀ t, t.text = "x" → ∀ c a d, f t c ≠ .ok a d)
    (e : (expect .dot wanted >>= fun _ => word wanted' >>= f) c = .ok a d) :
    ∃ point name more, c.rest = point :: name :: more ∧ point.kind = .dot ∧ name.text ≠ "x" := by
  obtain ⟨_, c₁, e₁, e⟩ := bind_eq_ok.1 e
  obtain ⟨name, c₂, e₂, e⟩ := bind_eq_ok.1 e
  obtain ⟨hrest, hdot⟩ := rest_of_expect (by decide) e₁
  rw [(rest_of_word e₂).1] at hrest
  exact ⟨_, name, _, hrest, hdot, fun hx => hf name hx _ _ _ e⟩

/-- **A point and a word stand behind the root of a binding**, and the word is not a component. -/
theorem exists_rest_of_bindingOf {root : Token} {k : VariableKind} (hword : root.kind = .identifier)
    (e : bindingOf kind limits root c = .ok k d) :
    ∃ point name more, c.rest = point :: name :: more ∧ point.kind = .dot ∧ name.text ≠ "x" := by
  unfold bindingOf at e
  split at e
  · obtain ⟨b, c₁, e, -⟩ := bind_eq_ok.1 e
    unfold inputBinding at e
    split at e
    · cases e
    refine exists_rest_of_behindPoint (fun t ht _ _ _ e => ?_) e
    cases kind <;> simp only [ht] at e <;> cases e
  split at e
  · rename_i hroot
    obtain ⟨b, c₁, e, -⟩ := bind_eq_ok.1 e
    obtain ⟨items, c₂, e, -⟩ := bind_eq_ok.1 e
    simp only [List.mem_cons, List.not_mem_nil, or_false] at hroot
    obtain hroot | hroot := hroot <;> simp only [paramItem, hword, hroot] at e
    · obtain ⟨rows, c₃, e, -⟩ := bind_eq_ok.1 e
      refine exists_rest_of_behindPoint (fun t ht _ _ _ e => ?_) e
      simp only [ht] at e
      cases e
    · refine exists_rest_of_behindPoint (fun t ht _ _ _ e => ?_) e
      simp only [ht] at e
      cases e
  split at e
  · obtain ⟨b, c₁, e, -⟩ := bind_eq_ok.1 e
    refine exists_rest_of_behindPoint (fun t ht _ _ _ e => ?_) e
    cases kind <;> simp only [ht] at e <;> cases e
  · cases e

end Scan

/-- The cursor `c` stands on the first word of the binding, which is read up to the cursor `d`. -/
def VariableKind.ReadAt (kind : ProgramKind) (limits : Limits) (c d : Cursor) (k : VariableKind) :
    Prop :=
  c.current.kind = .identifier ∧ Scan.bindingOf kind limits c.current c = .ok k d

namespace VariableKind.ReadAt

variable {kind : ProgramKind} {limits : Limits} {c d d' : Cursor} {k k' : VariableKind}
  {inner : List Token}

theorem input {b : InputBinding} (hword : c.current.kind = .identifier)
    (htext : c.current.text ∈ ["vertex", "fragment"])
    (e : Scan.inputBinding kind limits c.current c = .ok b d) :
    (VariableKind.input b).ReadAt kind limits c d := by
  refine ⟨hword, ?_⟩
  rw [Scan.bindingOf, if_pos htext]
  exact Scan.bind_eq_ok.2 ⟨b, d, e, rfl⟩

theorem param {b : ParamBinding} (hword : c.current.kind = .identifier)
    (htext : c.current.text ∈ ["state", "program"])
    (e : Scan.singleParam limits c.current c = .ok b d) :
    (VariableKind.param b).ReadAt kind limits c d := by
  refine ⟨hword, ?_⟩
  have hinput : c.current.text ∉ ["vertex", "fragment"] := by
    simp only [List.mem_cons, List.not_mem_nil, or_false] at htext
    obtain htext | htext := htext <;> simp [htext]
  rw [Scan.bindingOf, if_neg hinput, if_pos htext]
  exact Scan.bind_eq_ok.2 ⟨b, d, e, rfl⟩

theorem output {b : OutputBinding} (hword : c.current.kind = .identifier)
    (htext : c.current.text = "result") (e : Scan.outputBinding kind limits c = .ok b d) :
    (VariableKind.output b).ReadAt kind limits c d := by
  refine ⟨hword, ?_⟩
  rw [Scan.bindingOf, if_neg (by simp [htext]), if_neg (by simp [htext]), if_pos htext]
  exact Scan.bind_eq_ok.2 ⟨b, d, e, rfl⟩

theorem isRoot (h : k.ReadAt kind limits c d) : c.current.IsRoot :=
  ⟨h.1, Scan.mem_bindingRoots_of_bindingOf h.2⟩

/-- **One binding at most is read at a word.** -/
theorem unique (h : k.ReadAt kind limits c d) (h' : k'.ReadAt kind limits c d') : k' = k := by
  cases h.2.symm.trans h'.2
  rfl

/-- **No other binding starts inside a binding**, and no statement ends there. -/
theorem inside (h : k.ReadAt kind limits c d) (htakes : c.Takes inner d) :
    ∀ t ∈ inner, ¬ t.IsForeign := by
  obtain ⟨used, hused, hnone⟩ :=
    (inferInstance : Avoids Token.IsForeign (Scan.bindingOf kind limits c.current)).reads h.2
  have hsame : inner = used := List.append_cancel_right (htakes.1.symm.trans hused)
  rwa [hsame]

end VariableKind.ReadAt

end ShaderAssembly
