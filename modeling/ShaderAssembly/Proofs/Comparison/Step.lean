import Mathlib.Data.List.Forall2
import ShaderAssembly.Proofs.Locality.Step
/-!
# Two readings side by side

Texts that have the same significant tokens are read in the same way, wherever the tokens stand, and
a statement that is accepted is accepted under higher limits too. Both are seen by reading twice at
once.

* `Comparison`: the limits of the two readings, and the bytes of one text that stand for bytes of
  the other;
* `Comparison.Alike`, `Comparison.Beside`, `Comparison.Blames`: tokens, cursors and faults that
  differ in their places only;
* **`Scan.Follows`**: what the first scan reads the second one reads too, and, under the same limits,
  what the first one refuses the second one refuses for the same reason;
* one rule for each way of putting scans together.
-/

namespace ShaderAssembly

variable {α β : Type}

/-! ## Limits -/

/-- Limits none of which is higher than in the others. -/
structure Limits.Le (l l' : Limits) : Prop where
  maxInstructions : l.maxInstructions ≤ l'.maxInstructions
  maxTemporaries : l.maxTemporaries ≤ l'.maxTemporaries
  maxAddressRegisters : l.maxAddressRegisters ≤ l'.maxAddressRegisters
  maxEnvParams : l.maxEnvParams ≤ l'.maxEnvParams
  maxLocalParams : l.maxLocalParams ≤ l'.maxLocalParams
  maxTextureUnits : l.maxTextureUnits ≤ l'.maxTextureUnits
  maxTextureCoords : l.maxTextureCoords ≤ l'.maxTextureCoords

instance : LE Limits := ⟨Limits.Le⟩

theorem Limits.le_refl (l : Limits) : l ≤ l := by
  constructor <;> exact Nat.le_refl _

/-! ## Comparisons -/

/-- Two readings that are compared: the limits of each, which bytes of the texts correspond, which of
these are places of words, and whether the texts are one and the same. -/
structure Comparison where
  limits : Limits
  limits' : Limits
  le : limits ≤ limits'
  place : Nat → Nat → Prop
  word : Nat → Nat → Prop
  place_of_word : ∀ {a b : Nat}, word a b → place a b
  sameText : Prop
  eq_of_place : sameText → ∀ {a b : Nat}, place a b → a = b

namespace Comparison

variable (Γ : Comparison)

/-- Tokens that differ in their places only, which correspond. -/
def Alike (t t' : Token) : Prop :=
  ∃ offset, t' = { t with offset } ∧ Γ.place t.offset offset ∧
    (t.kind = .identifier → Γ.word t.offset offset)

/-- Cursors whose current tokens, tokens to come and ends of text are alike. -/
structure Beside (c c' : Cursor) : Prop where
  current : Γ.Alike c.current c'.current
  rest : List.Forall₂ Γ.Alike c.rest c'.rest
  stop : Γ.Alike c.endToken c'.endToken
  source : Γ.sameText → c.source = c'.source

/-- Faults with the same wording at places that correspond. -/
def Blames (f f' : Fault) : Prop :=
  f.cause.message = f'.cause.message ∧ Γ.place f.offset f'.offset

/-- Numbers from a text that are the same, to be blamed on places that correspond. -/
def Located (x x' : Located α) : Prop := x.value = x'.value ∧ Γ.place x.offset x'.offset

variable {Γ}

theorem Alike.kind {t t' : Token} (h : Γ.Alike t t') : t'.kind = t.kind := by
  obtain ⟨_, rfl, _⟩ := h
  rfl

theorem Alike.text {t t' : Token} (h : Γ.Alike t t') : t'.text = t.text := by
  obtain ⟨_, rfl, _⟩ := h
  rfl

theorem Alike.place {t t' : Token} (h : Γ.Alike t t') : Γ.place t.offset t'.offset := by
  obtain ⟨_, rfl, h, -⟩ := h
  exact h

theorem Alike.word {t t' : Token} (h : Γ.Alike t t') (hk : t.kind = .identifier) :
    Γ.word t.offset t'.offset := by
  obtain ⟨_, rfl, -, h⟩ := h
  exact h hk

theorem Alike.message {t t' : Token} (h : Γ.Alike t t') (wanted : String) :
    (Cause.unexpected wanted t).message = (Cause.unexpected wanted t').message := by
  obtain ⟨_, rfl, _⟩ := h
  rfl

theorem Alike.eq {t t' : Token} (h : Γ.Alike t t') (same : Γ.sameText) : t' = t := by
  obtain ⟨offset, rfl, h, -⟩ := h
  rw [← Γ.eq_of_place same h]

/-- Moving on, the current tokens no longer matter. -/
theorem Beside.of_rest {c c' : Cursor} (rest : List.Forall₂ Γ.Alike c.rest c'.rest)
    (stop : Γ.Alike c.endToken c'.endToken) (source : Γ.sameText → c.source = c'.source) :
    Γ.Beside c.advance c'.advance := by
  have upcoming : Γ.Alike c.upcoming c'.upcoming := by
    unfold Cursor.upcoming
    generalize c.rest = ts, c'.rest = ts' at rest
    cases rest with
    | nil => exact stop
    | cons ht _ => exact ht
  have tail : List.Forall₂ Γ.Alike c.rest.tail c'.rest.tail := by
    generalize c.rest = ts, c'.rest = ts' at rest
    cases rest with
    | nil => exact .nil
    | cons _ hts => exact hts
  exact ⟨upcoming, tail, stop, source⟩

theorem Beside.advance {c c' : Cursor} (h : Γ.Beside c c') : Γ.Beside c.advance c'.advance :=
  .of_rest h.rest h.stop h.source

theorem Beside.upcoming {c c' : Cursor} (h : Γ.Beside c c') : Γ.Alike c.upcoming c'.upcoming :=
  h.advance.current

end Comparison

/-! ## Scans -/

variable {Γ : Comparison}

/-- From cursors that are alike, what the first scan reads the second one reads too, and their
values have `R`; under the same limits they also refuse together, for the same reason. -/
def Scan.Follows (Γ : Comparison) (scan scan' : Scan α) (R : α → α → Prop) : Prop :=
  ∀ c c', Γ.Beside c c' →
    match scan c with
    | .ok a d => ∃ a' d', scan' c' = .ok a' d' ∧ Γ.Beside d d' ∧ R a a'
    | .error f _ => Γ.limits = Γ.limits' → ∃ f' d', scan' c' = .error f' d' ∧ Γ.Blames f f'

namespace Scan.Follows

theorem of_pure {a a' : α} {R : α → α → Prop} (h : R a a') :
    Follows Γ (pure a) (pure a') R := fun _ c' hc => ⟨a', c', rfl, hc, h⟩

theorem of_eq (a : α) : Follows Γ (pure a) (pure a) Eq := of_pure rfl

/-- Refusals for causes that are worded alike, if the limits are the same. -/
theorem of_refuse {cause cause' : Cause} {offset offset' : Nat} {R : α → α → Prop}
    (hc : Γ.limits = Γ.limits' → cause.message = cause'.message) (ho : Γ.place offset offset') :
    Follows Γ (refuse cause offset) (refuse cause' offset') R :=
  fun _ c' _ hl => ⟨⟨cause', offset'⟩, c', rfl, hc hl, ho⟩

theorem of_unexpected {wanted : String} {found found' : Token} {R : α → α → Prop}
    (h : Γ.Alike found found') :
    Follows Γ (unexpected wanted found) (unexpected wanted found') R :=
  of_refuse (fun _ => h.message wanted) h.place

theorem bind {scan scan' : Scan α} {f f' : α → Scan β} {R : α → α → Prop} {Q : β → β → Prop}
    (h : Follows Γ scan scan' R) (hf : ∀ a a', R a a' → Follows Γ (f a) (f' a') Q) :
    Follows Γ (scan >>= f) (scan' >>= f') Q := by
  intro c c' hc
  have h := h c c' hc
  simp only [Bind.bind, EStateM.bind]
  cases e : scan c with
  | ok a d =>
    rw [e] at h
    obtain ⟨a', d', e', hd, ha⟩ := h
    rw [e']
    exact hf a a' ha d d' hd
  | error g d =>
    rw [e] at h
    intro hl
    obtain ⟨g', d', e', hg⟩ := h hl
    exact ⟨g', d', by rw [e'], hg⟩

theorem bindEq {scan scan' : Scan α} {f f' : α → Scan β} {Q : β → β → Prop}
    (h : Follows Γ scan scan' Eq) (hf : ∀ a, Follows Γ (f a) (f' a) Q) :
    Follows Γ (scan >>= f) (scan' >>= f') Q := h.bind fun a _ e => e ▸ hf a

/-- A scan that is not refused by a check in the second reading unless it is in the first. -/
theorem guard {p p' : Prop} {_ : Decidable p} {_ : Decidable p'} {cause cause' : Cause}
    {offset offset' : Nat} {f f' : Unit → Scan β} {Q : β → β → Prop} (hp : p' → p)
    (hp' : Γ.limits = Γ.limits' → p → p' ∧ cause.message = cause'.message)
    (ho : Γ.place offset offset') (hf : Follows Γ (f ()) (f' ()) Q) :
    Follows Γ (if p then refuse cause offset >>= f else f ())
      (if p' then refuse cause' offset' >>= f' else f' ()) Q := by
  by_cases h : p
  · rw [if_pos h]
    intro c c' hc hl
    rw [if_pos (hp' hl h).1]
    exact ⟨⟨cause', offset'⟩, c', rfl, (hp' hl h).2, ho⟩
  · rw [if_neg h, if_neg fun h' => h (hp h')]
    exact hf

theorem check {p : Prop} {_ : Decidable p} {cause cause' : Cause} {offset offset' : Nat}
    {f f' : Unit → Scan β} {Q : β → β → Prop} (hc : cause.message = cause'.message)
    (ho : Γ.place offset offset') (hf : Follows Γ (f ()) (f' ()) Q) :
    Follows Γ (if p then refuse cause offset >>= f else f ())
      (if p then refuse cause' offset' >>= f' else f' ()) Q :=
  guard id (fun _ h => ⟨h, hc⟩) ho hf

theorem checkToken {p : Prop} {_ : Decidable p} {wanted : String} {found found' : Token}
    {f f' : Unit → Scan β} {Q : β → β → Prop} (h : Γ.Alike found found')
    (hf : Follows Γ (f ()) (f' ()) Q) :
    Follows Γ (if p then unexpected wanted found >>= f else f ())
      (if p then unexpected wanted found' >>= f' else f' ()) Q :=
  check (h.message wanted) h.place hf

end Scan.Follows

/-! ## Single tokens -/

namespace Scan

theorem next_follows : Follows Γ next next Γ.Alike := fun _ c' hc =>
  ⟨c'.upcoming, c'.advance, rfl, hc.advance, hc.upcoming⟩

theorem peek_follows : Follows Γ peek peek Γ.Alike := fun _ c' hc =>
  ⟨c'.upcoming, c', rfl, hc, hc.upcoming⟩

theorem expect_follows (kind : TokenKind) (wanted : String) :
    Follows Γ (expect kind wanted) (expect kind wanted) Eq := by
  refine next_follows.bind fun t t' h => ?_
  rw [h.kind]
  split
  · exact .of_unexpected h
  · exact .of_eq ()

theorem word_follows (wanted : String) : Follows Γ (word wanted) (word wanted) Γ.Alike := by
  refine next_follows.bind fun t t' h => ?_
  rw [h.kind]
  exact .checkToken h (.of_pure h)

theorem keyword_follows (text : String) : Follows Γ (keyword text) (keyword text) Eq := by
  refine (word_follows text).bind fun t t' h => ?_
  rw [h.text]
  split
  · exact .of_unexpected h
  · exact .of_eq ()

theorem suffixOf?_eq_of_alike {ts ts' : List Token} (accepted : List String)
    (h : List.Forall₂ Γ.Alike ts ts') : suffixOf? accepted ts' = suffixOf? accepted ts := by
  cases h with
  | nil => rfl
  | cons hpoint h =>
    cases h with
    | nil => rfl
    | cons hname h => simp only [suffixOf?, hpoint.kind, hname.kind, hname.text]

theorem suffix?_follows (accepted : List String) :
    Follows Γ (suffix? accepted) (suffix? accepted) Eq := by
  intro c c' hc
  rw [suffix?_eq, suffix?_eq, suffixOf?_eq_of_alike accepted hc.rest]
  cases suffixOf? accepted c.rest with
  | none => exact ⟨none, c', rfl, hc, rfl⟩
  | some word => exact ⟨some word, c'.advance.advance, rfl, hc.advance.advance, rfl⟩

end Scan

end ShaderAssembly
