import Mathlib.Logic.Function.Iterate
import ShaderAssembly.Proofs.Parsing.Equation
/-!
# What a step depends on

A step that succeeds depends on the tokens that it reads and on the ones that it looks ahead at, and
on nothing behind them.

* `Agree`: lists of tokens that no look ahead tells apart;
* `Cursor.LeadsTo`: moving on from token to token;
* **`Scan.IsLocal`**, **`Parse.IsLocal`**: a step that succeeds reads some tokens, and it does the
  same wherever these tokens stand before others that agree;
* one instance for each way of putting steps together, so that a step is local by its shape.
-/

namespace ShaderAssembly

variable {α β : Type}

/-! ## Looking ahead -/

/-- Lists of tokens that are the same up to some token other than a point. No step looks further
ahead than to the word behind a point. -/
def Agree (ts ts' : List Token) : Prop :=
  ∃ (common : List Token) (t : Token) (more more' : List Token),
    t.kind ≠ .dot ∧ ts = common ++ t :: more ∧ ts' = common ++ t :: more'

theorem Agree.append {ts ts' : List Token} (h : Agree ts ts') (used : List Token) :
    Agree (used ++ ts) (used ++ ts') := by
  obtain ⟨common, t, more, more', ht, rfl, rfl⟩ := h
  exact ⟨used ++ common, t, more, more', ht, (List.append_assoc ..).symm,
    (List.append_assoc ..).symm⟩

theorem Agree.head? {ts ts' : List Token} (h : Agree ts ts') : ts'.head? = ts.head? := by
  obtain ⟨common, t, more, more', -, rfl, rfl⟩ := h
  cases common <;> rfl

/-- The cursor before other tokens. -/
def Cursor.withRest (c : Cursor) (ts : List Token) : Cursor := { c with rest := ts }

@[simp] theorem Cursor.rest_withRest (c : Cursor) (ts : List Token) : (c.withRest ts).rest = ts := rfl

@[simp] theorem Cursor.withRest_rest (c : Cursor) : c.withRest c.rest = c := rfl

/-- Behind a token there is another one, or the end of the text. -/
theorem Cursor.rest_of_upcoming {c : Cursor} (h : c.upcoming.kind ≠ .endOfText) :
    c.rest = c.upcoming :: c.rest.tail := by
  cases hc : c.rest with
  | nil => simp [Cursor.upcoming, hc, Cursor.endToken, Token.endAt] at h
  | cons t ts => simp [Cursor.upcoming, hc]

/-- A reading before other tokens. -/
def Progress.withRest (p : Progress) (ts : List Token) : Progress :=
  { p with cursor := p.cursor.withRest ts }

/-! ## Moving on -/

/-- From the cursor `c` some number of moves leads to `d`. -/
def Cursor.LeadsTo (c d : Cursor) : Prop := ∃ n, d = Cursor.advance^[n] c

theorem Cursor.LeadsTo.refl (c : Cursor) : c.LeadsTo c := ⟨0, rfl⟩

theorem Cursor.leadsTo_advance (c : Cursor) : c.LeadsTo c.advance := ⟨1, rfl⟩

theorem Cursor.LeadsTo.trans {c d e : Cursor} (h : c.LeadsTo d) (h' : d.LeadsTo e) : c.LeadsTo e := by
  obtain ⟨n, rfl⟩ := h
  obtain ⟨m, rfl⟩ := h'
  exact ⟨m + n, (Function.iterate_add_apply _ m n c).symm⟩

/-! ## Scans -/

/-- A scan that moves on from token to token, and depends on nothing behind the tokens that it looks
at. -/
class Scan.IsLocal (scan : Scan α) : Prop where
  reads {c : Cursor} {a : α} {d : Cursor} : scan c = .ok a d → ∃ used, c.rest = used ++ d.rest ∧
    ∀ more, Agree d.rest more → scan (c.withRest (used ++ more)) = .ok a (d.withRest more)
  moves {c : Cursor} {a : α} {d : Cursor} : scan c = .ok a d → c.LeadsTo d

namespace Scan

/-- A scan that succeeds only moves forward. -/
theorem IsLocal.suffix {scan : Scan α} [h : IsLocal scan] {c d : Cursor} {a : α}
    (e : scan c = .ok a d) : d.rest <:+ c.rest := by
  obtain ⟨used, hused, -⟩ := h.reads e
  exact ⟨used, hused.symm⟩

instance (a : α) : IsLocal (pure a : Scan α) where
  reads e := by
    cases e
    exact ⟨[], rfl, fun _ _ => rfl⟩
  moves e := by
    cases e
    exact .refl _

instance (cause : Cause) (offset : Nat) : IsLocal (refuse cause offset : Scan α) where
  reads e := nomatch e
  moves e := nomatch e

instance (wanted : String) (found : Token) : IsLocal (unexpected wanted found : Scan α) where
  reads e := nomatch e
  moves e := nomatch e

/-- Nothing follows a refusal. -/
instance (cause : Cause) (offset : Nat) (f : α → Scan β) : IsLocal (refuse cause offset >>= f) where
  reads e := nomatch e
  moves e := nomatch e

instance (wanted : String) (found : Token) (f : α → Scan β) :
    IsLocal (unexpected wanted found >>= f) where
  reads e := nomatch e
  moves e := nomatch e

instance (scan : Scan α) (f : α → Scan β) [hs : IsLocal scan] [hf : ∀ a, IsLocal (f a)] :
    IsLocal (scan >>= f) where
  reads {c b d} e := by
    obtain ⟨a, c₁, e₁, e₂⟩ := bind_eq_ok.1 e
    obtain ⟨used₁, h₁, again₁⟩ := hs.reads e₁
    obtain ⟨used₂, h₂, again₂⟩ := (hf a).reads e₂
    refine ⟨used₁ ++ used₂, by rw [h₁, h₂, List.append_assoc], fun more hmore => ?_⟩
    have ahead : Agree c₁.rest (used₂ ++ more) := h₂ ▸ hmore.append used₂
    rw [List.append_assoc]
    exact bind_eq_ok.2 ⟨a, _, again₁ _ ahead, again₂ _ hmore⟩
  moves e := by
    obtain ⟨a, c₁, e₁, e₂⟩ := bind_eq_ok.1 e
    exact (hs.moves e₁).trans ((hf a).moves e₂)

instance (p : Prop) [Decidable p] (scan scan' : Scan α) [IsLocal scan] [IsLocal scan'] :
    IsLocal (if p then scan else scan') := by
  split <;> assumption

/-- A step behind another one, where the cases of what follows are still to be told apart. -/
theorem IsLocal.andThen {scan : Scan α} {f : α → Scan β} [IsLocal scan] (hf : ∀ a, IsLocal (f a)) :
    IsLocal (scan >>= f) := inferInstance

/-! ## Single tokens -/

instance : IsLocal next where
  reads {c t d} e := by
    cases e
    cases h : c.rest with
    | nil =>
      refine ⟨[], by simp [Cursor.advance, h], fun more ⟨common, t, _, _, _, e, _⟩ => ?_⟩
      cases common <;> simp [Cursor.advance, h] at e
    | cons t ts =>
      refine ⟨[t], by simp [Cursor.advance, h], fun more _ => ?_⟩
      simp [next_eq, Cursor.advance, Cursor.upcoming, Cursor.withRest, h]
  moves e := by
    cases e
    exact Cursor.leadsTo_advance _

/-- A token other than the end of the text is read for good. -/
theorem rest_of_next {c d : Cursor} {t : Token} (e : next c = .ok t d) (h : t.kind ≠ .endOfText) :
    c.rest = t :: d.rest := by
  cases e
  exact Cursor.rest_of_upcoming h

instance : IsLocal peek where
  reads {c t d} e := by
    cases e
    refine ⟨[], rfl, fun more hmore => ?_⟩
    have : (c.withRest more).upcoming = c.upcoming := by
      simp [Cursor.upcoming, Cursor.endToken, Cursor.withRest, hmore.head?]
    rw [peek_eq, List.nil_append, this]
  moves e := by
    cases e
    exact .refl _

theorem suffixOf?_agree (accepted : List String) {ts ts' : List Token} (h : Agree ts ts') :
    suffixOf? accepted ts' = suffixOf? accepted ts := by
  have lone (t : Token) (ht : t.kind ≠ .dot) (more : List Token) :
      suffixOf? accepted (t :: more) = none := by
    cases more <;> simp [suffixOf?, ht]
  obtain ⟨common, t, more, more', ht, rfl, rfl⟩ := h
  match common with
  | [] => rw [List.nil_append, List.nil_append, lone t ht, lone t ht]
  | [point] => rfl
  | point :: name :: _ => rfl

theorem exists_of_suffixOf? {accepted : List String} {ts : List Token} {word : String}
    (h : suffixOf? accepted ts = some word) : ∃ point name more, ts = point :: name :: more := by
  match ts with
  | [] | [_] => cases h
  | point :: name :: more => exact ⟨point, name, more, rfl⟩

instance (accepted : List String) : IsLocal (suffix? accepted) where
  reads {c a d} e := by
    rw [suffix?_eq] at e
    cases h : suffixOf? accepted c.rest with
    | none =>
      rw [h] at e
      cases e
      refine ⟨[], rfl, fun more hmore => ?_⟩
      rw [suffix?_eq]
      simp only [Cursor.rest_withRest, List.nil_append, suffixOf?_agree accepted hmore, h]
    | some word =>
      rw [h] at e
      cases e
      obtain ⟨point, name, ts, hts⟩ := exists_of_suffixOf? h
      refine ⟨[point, name], by simp [Cursor.advance, hts], fun more hmore => ?_⟩
      rw [suffix?_eq, Cursor.rest_withRest,
        show suffixOf? accepted ([point, name] ++ more) = suffixOf? accepted c.rest by rw [hts]; rfl, h]
      simp [Cursor.advance, Cursor.upcoming, Cursor.withRest, hts]
  moves e := by
    rw [suffix?_eq] at e
    split at e <;> cases e
    · exact ⟨2, rfl⟩
    · exact .refl _

instance (kind : TokenKind) (wanted : String) : IsLocal (expect kind wanted) := by
  unfold expect
  infer_instance

instance (wanted : String) : IsLocal (word wanted) := by
  unfold word
  infer_instance

end Scan

/-! ## Steps that add to a draft -/

/-- A step that moves on from token to token, and depends on nothing behind the tokens that it looks
at. -/
class Parse.IsLocal (step : Parse α) : Prop where
  reads {p : Progress} {a : α} {q : Progress} : step p = .ok a q →
    ∃ used, p.cursor.rest = used ++ q.cursor.rest ∧
      ∀ more, Agree q.cursor.rest more → step (p.withRest (used ++ more)) = .ok a (q.withRest more)
  moves {p : Progress} {a : α} {q : Progress} : step p = .ok a q → p.cursor.LeadsTo q.cursor

namespace Parse

/-- A step that succeeds only moves forward. -/
theorem IsLocal.suffix {step : Parse α} [h : IsLocal step] {p q : Progress} {a : α}
    (e : step p = .ok a q) : q.cursor.rest <:+ p.cursor.rest := by
  obtain ⟨used, hused, -⟩ := h.reads e
  exact ⟨used, hused.symm⟩

instance (a : α) : IsLocal (pure a : Parse α) where
  reads e := by
    cases e
    exact ⟨[], rfl, fun _ _ => rfl⟩
  moves e := by
    cases e
    exact .refl _

instance (cause : Cause) (offset : Nat) : IsLocal (refuse cause offset : Parse α) where
  reads e := nomatch e
  moves e := nomatch e

/-- Nothing follows a refusal. -/
instance (cause : Cause) (offset : Nat) (f : α → Parse β) :
    IsLocal (refuse cause offset >>= f) where
  reads e := nomatch e
  moves e := nomatch e

instance (scan : Scan α) [hs : scan.IsLocal] : IsLocal (liftM scan : Parse α) where
  reads e := by
    obtain ⟨d, hd, rfl⟩ := lift_eq_ok.1 e
    obtain ⟨used, hused, again⟩ := hs.reads hd
    exact ⟨used, hused, fun more hmore => lift_eq_ok.2 ⟨_, again more hmore, rfl⟩⟩
  moves e := by
    obtain ⟨d, hd, rfl⟩ := lift_eq_ok.1 e
    exact hs.moves hd

instance (wanted : String) (found : Token) (f : α → Parse β) :
    IsLocal (liftM (Scan.unexpected wanted found : Scan α) >>= f) where
  reads e := nomatch e
  moves e := nomatch e

instance (step : Parse α) (f : α → Parse β) [hs : IsLocal step] [hf : ∀ a, IsLocal (f a)] :
    IsLocal (step >>= f) where
  reads {p b q} e := by
    obtain ⟨a, p₁, e₁, e₂⟩ := bind_eq_ok.1 e
    obtain ⟨used₁, h₁, again₁⟩ := hs.reads e₁
    obtain ⟨used₂, h₂, again₂⟩ := (hf a).reads e₂
    refine ⟨used₁ ++ used₂, by rw [h₁, h₂, List.append_assoc], fun more hmore => ?_⟩
    have ahead : Agree p₁.cursor.rest (used₂ ++ more) := h₂ ▸ hmore.append used₂
    rw [List.append_assoc]
    exact bind_eq_ok.2 ⟨a, _, again₁ _ ahead, again₂ _ hmore⟩
  moves e := by
    obtain ⟨a, p₁, e₁, e₂⟩ := bind_eq_ok.1 e
    exact (hs.moves e₁).trans ((hf a).moves e₂)

instance (p : Prop) [Decidable p] (step step' : Parse α) [IsLocal step] [IsLocal step'] :
    IsLocal (if p then step else step') := by
  split <;> assumption

/-- A step behind another one, where the cases of what follows are still to be told apart. -/
theorem IsLocal.andThen {step : Parse α} {f : α → Parse β} [IsLocal step]
    (hf : ∀ a, IsLocal (f a)) : IsLocal (step >>= f) := inferInstance

/-! ## Drafts -/

instance : IsLocal draft where
  reads e := by
    cases e
    exact ⟨[], rfl, fun _ _ => rfl⟩
  moves e := by
    cases e
    exact .refl _

instance (change : Draft → Except Cause Draft) (offset : Nat) : IsLocal (edit change offset) where
  reads {p a q} e := by
    rw [edit_eq] at e
    cases h : change p.draft with
    | error cause =>
      rw [h] at e
      cases e
    | ok d =>
      rw [h] at e
      cases e
      refine ⟨[], rfl, fun more _ => ?_⟩
      rw [edit_eq]
      simp [Progress.withRest, h]
  moves e := by
    rw [edit_eq] at e
    split at e <;> cases e
    exact .refl _

instance (name : Token) : IsLocal (resolve name) := by
  unfold resolve
  refine .andThen fun d => ?_
  split <;> infer_instance

/-- The text of a binding ends with the current token, so it depends on no other one. -/
instance (kind : VariableKind) (start : Nat) : IsLocal (implicit kind start) where
  reads {p a q} e := by
    rw [implicit_eq] at e
    cases h : p.draft.implied? kind with
    | some i =>
      rw [h] at e
      cases e
      refine ⟨[], rfl, fun more _ => ?_⟩
      rw [implicit_eq]
      simp [Progress.withRest, h]
    | none =>
      rw [h] at e
      cases e
      refine ⟨[], rfl, fun more _ => ?_⟩
      rw [implicit_eq]
      simp [Progress.withRest, h, Cursor.textFrom, Cursor.withRest]
  moves e := by
    rw [implicit_eq] at e
    split at e <;> cases e <;> exact .refl _

end Parse

end ShaderAssembly
