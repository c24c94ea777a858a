import ShaderAssembly.Proofs.Locality.Step
/-!
# Steps inside a statement

A statement ends with its first semicolon: no step inside it passes one. No scan inside an operand
passes the word that another binding starts with, either.

* `Token.Terminates`, `Token.IsRoot`: the token that ends a statement, and the words that bindings
  start with;
* **`Avoids`**, `StaysInside`: a step that passes no token of some sort, or none that ends a statement;
* `Declines`: steps, given by a token that has been read, of which none accepts such a token;
* `StandsStill`: a step that reads nothing;
* **`Closes`**: a step that reads up to the first such token and stops there;
* one instance for each way of putting steps together.

Scans and steps that add to a draft follow the same rules.
-/

namespace ShaderAssembly

/-- The token that ends a statement. -/
def Token.Terminates (t : Token) : Prop := t.kind = .semicolon ∧ t.text = ";"

instance (t : Token) : Decidable t.Terminates := inferInstanceAs (Decidable (_ ∧ _))

/-- The words that bindings start with. -/
def bindingRoots : List String := ["vertex", "fragment", "state", "program", "result"]

/-- A word that a binding starts with. -/
def Token.IsRoot (t : Token) : Prop := t.kind = .identifier ∧ t.text ∈ bindingRoots

theorem Token.IsRoot.text_eq {t : Token} (h : t.IsRoot) : t.text = "vertex" ∨ t.text = "fragment" ∨
    t.text = "state" ∨ t.text = "program" ∨ t.text = "result" := by
  simpa [bindingRoots] using h.2

/-- A token that stands behind all that an operand reads after its first word: a statement ends
there, or another binding starts. -/
def Token.IsForeign (t : Token) : Prop := t.Terminates ∨ t.IsRoot

theorem Token.Terminates.isForeign {t : Token} (h : t.Terminates) : t.IsForeign := .inl h

theorem Token.IsRoot.isForeign {t : Token} (h : t.IsRoot) : t.IsForeign := .inr h

theorem Token.IsForeign.kind_eq {t : Token} (h : t.IsForeign) :
    t.kind = .semicolon ∨ t.kind = .identifier := h.imp (·.1) (·.1)

/-- A state of reading, with the place that it has come to. -/
class Reading (σ : Type) where
  cursor : σ → Cursor

instance : Reading Cursor := ⟨id⟩

instance : Reading Progress := ⟨Progress.cursor⟩

open Reading (cursor)

section Classes

variable {σ α : Type} [Reading σ]

/-- A step that passes none of the tokens `bad`. -/
class Avoids (bad : Token → Prop) (step : EStateM Fault σ α) : Prop where
  reads {s s' : σ} {a : α} : step s = .ok a s' →
    ∃ used, (cursor s).rest = used ++ (cursor s').rest ∧ ∀ t ∈ used, ¬ bad t

/-- A step that passes no token which ends a statement. -/
abbrev StaysInside (step : EStateM Fault σ α) : Prop := Avoids Token.Terminates step

/-- Steps behind a token that has been read. None of them goes on behind one of the tokens `bad`. -/
class Declines (bad : Token → Prop) (f : Token → EStateM Fault σ α) : Prop where
  refused {t : Token} : bad t → ∀ s a s', f t s ≠ .ok a s'

/-- A step that leaves the cursor where it is. -/
class StandsStill (step : EStateM Fault σ α) : Prop where
  cursor_eq {s s' : σ} {a : α} : step s = .ok a s' → cursor s' = cursor s

/-- A step that reads up to the end of a statement and stops there. -/
class Closes (step : EStateM Fault σ α) : Prop where
  reads {s s' : σ} {a : α} : step s = .ok a s' →
    ∃ used, (cursor s).rest = used ++ (cursor s').current :: (cursor s').rest ∧
      (∀ t ∈ used, ¬ t.Terminates) ∧ (cursor s').current.kind = .semicolon

/-- A step that moves on to the next token. -/
class MovesOn (step : EStateM Fault σ Token) : Prop where
  token_eq {s s' : σ} {t : Token} : step s = .ok t s' →
    t = (cursor s).upcoming ∧ cursor s' = (cursor s).advance

end Classes

variable {σ α β : Type} [Reading σ] {bad : Token → Prop}

/-! ## Standing still -/

instance (a : α) : StandsStill (pure a : EStateM Fault σ α) where
  cursor_eq e := by
    cases e
    rfl

instance : StandsStill (get : EStateM Fault σ σ) where
  cursor_eq e := by
    cases e
    rfl

instance : StandsStill Scan.peek where
  cursor_eq e := by
    cases e
    rfl

instance (cause : Cause) (offset : Nat) : StandsStill (Scan.refuse cause offset : Scan α) where
  cursor_eq e := nomatch e

instance (wanted : String) (found : Token) : StandsStill (Scan.unexpected wanted found : Scan α) where
  cursor_eq e := nomatch e

instance (cause : Cause) (offset : Nat) : StandsStill (Parse.refuse cause offset : Parse α) where
  cursor_eq e := nomatch e

instance : StandsStill Parse.draft where
  cursor_eq e := by
    cases e
    rfl

instance (change : Draft → Except Cause Draft) (offset : Nat) :
    StandsStill (Parse.edit change offset) where
  cursor_eq {p p' u} e := by
    rw [Parse.edit_eq] at e
    split at e
    · cases e
      rfl
    · cases e

instance (i : Instruction) :
    StandsStill (modify fun p => { p with draft := p.draft.push i } : Parse Unit) where
  cursor_eq e := by
    cases e
    rfl

instance (step : EStateM Fault σ α) (f : α → EStateM Fault σ β) [h : StandsStill step]
    [hf : ∀ a, StandsStill (f a)] : StandsStill (step >>= f) where
  cursor_eq e := by
    obtain ⟨a, s₁, e₁, e₂⟩ := Reading.bind_eq_ok.1 e
    rw [(hf a).cursor_eq e₂, h.cursor_eq e₁]

instance (p : Prop) [Decidable p] (step step' : EStateM Fault σ α) [StandsStill step]
    [StandsStill step'] : StandsStill (if p then step else step') := by
  split <;> assumption

instance (scan : Scan α) [h : StandsStill scan] : StandsStill (liftM scan : Parse α) where
  cursor_eq e := by
    obtain ⟨d, hd, rfl⟩ := Parse.lift_eq_ok.1 e
    exact h.cursor_eq hd

instance (name : Token) : StandsStill (Parse.resolve name) := by
  have found (r : Option (Nat × Variable)) : StandsStill (match r with
      | some v => pure v
      | none => Parse.refuse (.undeclared name.text) name.offset : Parse (Nat × Variable)) := by
    split <;> infer_instance
  unfold Parse.resolve
  infer_instance

instance (kind : VariableKind) (start : Nat) : StandsStill (Parse.implicit kind start) where
  cursor_eq {p p' i} e := by
    rw [Parse.implicit_eq] at e
    split at e <;> cases e <;> rfl

/-! ## Passing no such tokens -/

/-- What passes none of some tokens passes none of fewer. -/
theorem Avoids.mono {bad' : Token → Prop} {step : EStateM Fault σ α} [h : Avoids bad step]
    (hbad : ∀ t, bad' t → bad t) : Avoids bad' step where
  reads e := by
    obtain ⟨used, hused, hnone⟩ := h.reads e
    exact ⟨used, hused, fun t ht h => hnone t ht (hbad t h)⟩

instance (priority := low) (step : EStateM Fault σ α) [Avoids Token.IsForeign step] :
    StaysInside step := .mono fun _ => Token.Terminates.isForeign

instance (priority := low) (step : EStateM Fault σ α) [Avoids Token.IsForeign step] :
    Avoids Token.IsRoot step := .mono fun _ => Token.IsRoot.isForeign

/-- A step that reads nothing passes nothing. -/
instance (step : EStateM Fault σ α) [h : StandsStill step] : Avoids bad step where
  reads e := ⟨[], by rw [h.cursor_eq e, List.nil_append], List.forall_mem_nil _⟩

/-- Nothing follows a refusal. -/
instance (cause : Cause) (offset : Nat) (f : α → Scan β) :
    Avoids bad (Scan.refuse cause offset >>= f) where
  reads e := nomatch e

instance (wanted : String) (found : Token) (f : α → Scan β) :
    Avoids bad (Scan.unexpected wanted found >>= f) where
  reads e := nomatch e

instance (cause : Cause) (offset : Nat) (f : α → Parse β) :
    Avoids bad (Parse.refuse cause offset >>= f) where
  reads e := nomatch e

instance (wanted : String) (found : Token) (f : α → Parse β) :
    Avoids bad (liftM (Scan.unexpected wanted found : Scan α) >>= f) where
  reads e := nomatch e

instance (step : EStateM Fault σ α) (f : α → EStateM Fault σ β) [h : Avoids bad step]
    [hf : ∀ a, Avoids bad (f a)] : Avoids bad (step >>= f) where
  reads e := by
    obtain ⟨a, s₁, e₁, e₂⟩ := Reading.bind_eq_ok.1 e
    obtain ⟨used₁, h₁, hin₁⟩ := h.reads e₁
    obtain ⟨used₂, h₂, hin₂⟩ := (hf a).reads e₂
    refine ⟨used₁ ++ used₂, by rw [h₁, h₂, List.append_assoc], ?_⟩
    exact List.forall_mem_append.2 ⟨hin₁, hin₂⟩

instance (p : Prop) [Decidable p] (step step' : EStateM Fault σ α) [Avoids bad step]
    [Avoids bad step'] : Avoids bad (if p then step else step') := by
  split <;> assumption

instance (scan : Scan α) [h : Avoids bad scan] : Avoids bad (liftM scan : Parse α) where
  reads e := by
    obtain ⟨d, hd, rfl⟩ := Parse.lift_eq_ok.1 e
    exact h.reads hd

/-- A step behind another one, where the cases of what follows are still to be told apart. -/
theorem Avoids.andThen {step : EStateM Fault σ α} {f : α → EStateM Fault σ β} [Avoids bad step]
    (hf : ∀ a, Avoids bad (f a)) : Avoids bad (step >>= f) := inferInstance

/-! ## Moving on -/

instance : MovesOn Scan.next where
  token_eq e := by
    cases e
    exact ⟨rfl, rfl⟩

instance (scan : Scan Token) [h : MovesOn scan] : MovesOn (liftM scan : Parse Token) where
  token_eq e := by
    obtain ⟨d, hd, rfl⟩ := Parse.lift_eq_ok.1 e
    exact h.token_eq hd

/-- The token that is moved on to leaves the rest, unless it is the end of the text. -/
theorem Cursor.exists_rest_eq (c : Cursor) :
    ∃ used, c.rest = used ++ c.advance.rest ∧ ∀ t ∈ used, t = c.upcoming := by
  cases h : c.rest with
  | nil => exact ⟨[], by simp [advance, h], List.forall_mem_nil _⟩
  | cons t ts => exact ⟨[t], by simp [advance, h], by simp [upcoming, h]⟩

/-- A step behind a token that may be passed. -/
theorem Avoids.of_upcoming {step : EStateM Fault σ Token} {f : Token → EStateM Fault σ β}
    [hm : MovesOn step] {s s' : σ} {b : β} (hf : ∀ t, Avoids bad (f t))
    (ht : ¬ bad (cursor s).upcoming) (e : (step >>= f) s = .ok b s') :
    ∃ used, (cursor s).rest = used ++ (cursor s').rest ∧ ∀ t ∈ used, ¬ bad t := by
  obtain ⟨t, s₁, e₁, e₂⟩ := Reading.bind_eq_ok.1 e
  obtain ⟨rfl, hs₁⟩ := hm.token_eq e₁
  obtain ⟨used₁, h₁, hin₁⟩ := (cursor s).exists_rest_eq
  obtain ⟨used₂, h₂, hin₂⟩ := (hf _).reads e₂
  rw [hs₁] at h₂
  refine ⟨used₁ ++ used₂, by rw [h₁, h₂, List.append_assoc], ?_⟩
  exact List.forall_mem_append.2 ⟨fun t ht' => hin₁ t ht' ▸ ht, hin₂⟩

/-- A step that takes the next token and does not go on behind one that it must not pass. -/
theorem Avoids.next {step : EStateM Fault σ Token} {f : Token → EStateM Fault σ β}
    [hm : MovesOn step] (hd : ∀ t, bad t → ∀ s b s', f t s ≠ .ok b s')
    (hf : ∀ t, Avoids bad (f t)) : Avoids bad (step >>= f) where
  reads {s s' b} e := by
    by_cases ht : bad (cursor s).upcoming
    · obtain ⟨t, s₁, e₁, e₂⟩ := Reading.bind_eq_ok.1 e
      obtain ⟨rfl, -⟩ := hm.token_eq e₁
      exact absurd e₂ (hd _ ht s₁ b s')
    · exact Avoids.of_upcoming hf ht e

instance (step : EStateM Fault σ Token) (f : Token → EStateM Fault σ β) [MovesOn step]
    [hd : Declines bad f] [hf : ∀ t, Avoids bad (f t)] : Avoids bad (step >>= f) :=
  .next (fun _ ht => hd.refused ht) hf

/-- The same, where the cases of what follows are still to be told apart. -/
theorem Avoids.behind {step : EStateM Fault σ Token} {f : Token → EStateM Fault σ β}
    [MovesOn step] [Declines bad f] (hf : ∀ t, Avoids bad (f t)) : Avoids bad (step >>= f) :=
  inferInstance

/-! ## Declining -/

instance (priority := low) (f : Token → EStateM Fault σ α) [h : Declines Token.IsForeign f] :
    Declines Token.Terminates f where
  refused ht := h.refused ht.isForeign

instance (wanted : String) : Declines bad (Scan.unexpected wanted : Token → Scan α) where
  refused _ _ _ _ e := nomatch e

instance (wanted : String) :
    Declines bad (fun t => (liftM (Scan.unexpected wanted t : Scan α) : Parse α)) where
  refused _ _ _ _ e := nomatch e

instance (f : Token → EStateM Fault σ α) (g : Token → α → EStateM Fault σ β) [h : Declines bad f] :
    Declines bad fun t => f t >>= g t where
  refused ht s b s' e := by
    obtain ⟨a, s₁, e₁, -⟩ := Reading.bind_eq_ok.1 e
    exact h.refused ht s a s₁ e₁

instance (f : Token → Scan α) [h : Declines bad f] : Declines bad fun t => (liftM (f t) : Parse α) where
  refused ht s a s' e := by
    obtain ⟨d, hd, -⟩ := Parse.lift_eq_ok.1 e
    exact h.refused ht _ a d hd

/-! ## Closing -/

/-- Nothing follows a refusal. -/
instance (cause : Cause) (offset : Nat) (f : α → Parse β) :
    Closes (Parse.refuse cause offset >>= f) where
  reads e := nomatch e

instance (cause : Cause) (offset : Nat) : Closes (Parse.refuse cause offset : Parse α) where
  reads e := nomatch e

instance (wanted : String) (found : Token) (f : α → Parse β) :
    Closes (liftM (Scan.unexpected wanted found : Scan α) >>= f) where
  reads e := nomatch e

instance (step : EStateM Fault σ α) (f : α → EStateM Fault σ β) [h : StaysInside step]
    [hf : ∀ a, Closes (f a)] : Closes (step >>= f) where
  reads e := by
    obtain ⟨a, s₁, e₁, e₂⟩ := Reading.bind_eq_ok.1 e
    obtain ⟨used₁, h₁, hin₁⟩ := h.reads e₁
    obtain ⟨used₂, h₂, hin₂, hstop⟩ := (hf a).reads e₂
    refine ⟨used₁ ++ used₂, by rw [h₁, h₂, List.append_assoc], ?_, hstop⟩
    exact List.forall_mem_append.2 ⟨hin₁, hin₂⟩

instance (step : EStateM Fault σ α) (f : α → EStateM Fault σ β) [h : Closes step]
    [hf : ∀ a, StandsStill (f a)] : Closes (step >>= f) where
  reads e := by
    obtain ⟨a, s₁, e₁, e₂⟩ := Reading.bind_eq_ok.1 e
    rw [(hf a).cursor_eq e₂]
    exact h.reads e₁

instance (p : Prop) [Decidable p] (step step' : EStateM Fault σ α) [Closes step] [Closes step'] :
    Closes (if p then step else step') := by
  split <;> assumption

instance (scan : Scan α) [h : Closes scan] : Closes (liftM scan : Parse α) where
  reads e := by
    obtain ⟨d, hd, rfl⟩ := Parse.lift_eq_ok.1 e
    exact h.reads hd

/-- A step behind another one, where the cases of what follows are still to be told apart. -/
theorem Closes.andThen {step : EStateM Fault σ α} {f : α → EStateM Fault σ β} [StaysInside step]
    (hf : ∀ a, Closes (f a)) : Closes (step >>= f) := inferInstance

theorem Closes.before {step : EStateM Fault σ α} {f : α → EStateM Fault σ β} [Closes step]
    (hf : ∀ a, StandsStill (f a)) : Closes (step >>= f) := inferInstance

theorem Closes.of_upcoming {step : EStateM Fault σ Token} {f : Token → EStateM Fault σ β}
    [hm : MovesOn step] {s s' : σ} {b : β} (hf : Closes (f (cursor s).upcoming))
    (ht : ¬ (cursor s).upcoming.Terminates) (e : (step >>= f) s = .ok b s') :
    ∃ used, (cursor s).rest = used ++ (cursor s').current :: (cursor s').rest ∧
      (∀ t ∈ used, ¬ t.Terminates) ∧ (cursor s').current.kind = .semicolon := by
  obtain ⟨t, s₁, e₁, e₂⟩ := Reading.bind_eq_ok.1 e
  obtain ⟨rfl, hs₁⟩ := hm.token_eq e₁
  obtain ⟨used₁, h₁, hin₁⟩ := (cursor s).exists_rest_eq
  obtain ⟨used₂, h₂, hin₂, hstop⟩ := hf.reads e₂
  rw [hs₁] at h₂
  refine ⟨used₁ ++ used₂, by rw [h₁, h₂, List.append_assoc], ?_, hstop⟩
  exact List.forall_mem_append.2 ⟨fun t ht' => hin₁ t ht' ▸ ht, hin₂⟩

instance (step : EStateM Fault σ Token) (f : Token → EStateM Fault σ β) [hm : MovesOn step]
    [hd : Declines Token.Terminates f] [hf : ∀ t, Closes (f t)] : Closes (step >>= f) where
  reads {s s' b} e := by
    by_cases ht : (cursor s).upcoming.Terminates
    · obtain ⟨t, s₁, e₁, e₂⟩ := Reading.bind_eq_ok.1 e
      obtain ⟨rfl, -⟩ := hm.token_eq e₁
      exact absurd e₂ (hd.refused ht s₁ b s')
    · exact Closes.of_upcoming (hf _) ht e

/-- A step that takes the next token and stops if it is a semicolon. -/
theorem Closes.next {step : EStateM Fault σ Token} {f : Token → EStateM Fault σ β}
    [hm : MovesOn step] (hstop : ∀ t, t.kind = .semicolon → StandsStill (f t))
    (hf : ∀ t, t.kind ≠ .semicolon → Closes (f t)) : Closes (step >>= f) where
  reads {s s' b} e := by
    by_cases ht : (cursor s).upcoming.kind = .semicolon
    · obtain ⟨t, s₁, e₁, e₂⟩ := Reading.bind_eq_ok.1 e
      obtain ⟨rfl, hs₁⟩ := hm.token_eq e₁
      rw [(hstop _ ht).cursor_eq e₂, hs₁]
      exact ⟨[], Cursor.rest_of_upcoming (by rw [ht]; exact nofun), List.forall_mem_nil _, ht⟩
    · exact Closes.of_upcoming (hf _ ht) (fun h => ht h.1) e

/-- A token of the class that is expected is read for good. -/
theorem Scan.rest_of_expect {kind : TokenKind} {wanted : String} {c d : Cursor} {u : Unit}
    (hkind : kind ≠ .endOfText) (e : expect kind wanted c = .ok u d) :
    c.rest = d.current :: d.rest ∧ d.current.kind = kind := by
  obtain ⟨h, rfl⟩ := expect_eq_ok.1 e
  exact ⟨Cursor.rest_of_upcoming (h ▸ hkind), h⟩

/-- A word is read for good. -/
theorem Scan.rest_of_word {wanted : String} {c d : Cursor} {t : Token}
    (e : word wanted c = .ok t d) : c.rest = t :: d.rest ∧ t.kind = .identifier := by
  obtain ⟨h, rfl, rfl⟩ := word_eq_ok.1 e
  exact ⟨Cursor.rest_of_upcoming (by rw [h]; exact nofun), h⟩

instance (wanted : String) : Closes (Scan.expect .semicolon wanted) where
  reads e := by
    obtain ⟨hrest, hkind⟩ := Scan.rest_of_expect (by decide) e
    exact ⟨[], hrest, List.forall_mem_nil _, hkind⟩

end ShaderAssembly
