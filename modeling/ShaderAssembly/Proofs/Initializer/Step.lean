import ShaderAssembly.Proofs.Initializer.Grammar
/-!
# Verdicts of steps

* **`Reading.Decides`**: a step that is accepted exactly under a condition, and what it gives then;
* **`Scan.Yields`**: what is known of an accepted scan, of its value and of where it leads;
* one rule for each way of putting steps together;
* `Scan.number_eq_ok`, `Scan.suffix?_eq_some`, `Scan.suffix?_eq_none`: when single steps are accepted.
-/

namespace ShaderAssembly

variable {α β σ : Type}

/-! ## Decided steps -/

namespace Reading

/-- The step is accepted exactly if `P`; then it gives `a` and leads to `s'`. -/
def Decides (step : EStateM Fault σ α) (s : σ) (P : Prop) (a : α) (s' : σ) : Prop :=
  (P → step s = .ok a s') ∧ (¬ P → ∃ f s₁, step s = .error f s₁)

variable {step : EStateM Fault σ α} {f : α → EStateM Fault σ β} {s s₁ s₂ : σ} {P Q : Prop} {a : α}
  {b : β}

theorem Decides.of_ok (h : step s = .ok a s₁) : Decides step s True a s₁ :=
  ⟨fun _ => h, fun hP => absurd trivial hP⟩

theorem Decides.of_error {g : Fault} (h : step s = .error g s₂) : Decides step s False a s₁ :=
  ⟨False.elim, fun _ => ⟨g, s₂, h⟩⟩

theorem Decides.congr (h : Decides step s P a s₁) (hPQ : P ↔ Q) : Decides step s Q a s₁ :=
  ⟨fun hQ => h.1 (hPQ.2 hQ), fun hQ => h.2 fun hP => hQ (hPQ.1 hP)⟩

theorem Decides.bind (h : Decides step s P a s₁) (hf : P → Decides (f a) s₁ Q b s₂) :
    Decides (step >>= f) s (P ∧ Q) b s₂ := by
  refine ⟨fun ⟨hP, hQ⟩ => ?_, fun hPQ => ?_⟩
  · rw [bind_of_ok (h.1 hP)]
    exact (hf hP).1 hQ
  · by_cases hP : P
    · rw [bind_of_ok (h.1 hP)]
      exact (hf hP).2 fun hQ => hPQ ⟨hP, hQ⟩
    · obtain ⟨g, s₃, e⟩ := h.2 hP
      exact ⟨g, s₃, bind_eq_error.2 (.inl e)⟩

/-- A step behind one that is accepted. -/
theorem Decides.behind (h : step s = .ok a s₁) (hf : Decides (f a) s₁ Q b s₂) :
    Decides (step >>= f) s Q b s₂ :=
  (Decides.bind (.of_ok h) fun _ => hf).congr (iff_of_eq (true_and _))

/-- A step before one that is accepted. -/
theorem Decides.before (h : Decides step s P a s₁) (hf : f a s₁ = .ok b s₂) :
    Decides (step >>= f) s P b s₂ :=
  (h.bind fun _ => .of_ok hf).congr (iff_of_eq (and_true _))

/-- A step behind a check, which refuses if `R`. -/
theorem Decides.guard {R : Prop} {_ : Decidable R} {bad : EStateM Fault σ Unit} {g : Fault}
    {f : Unit → EStateM Fault σ β} (hbad : bad s = .error g s₁)
    (h : ¬ R → Decides (f ()) s Q b s₂) :
    Decides (if R then bad >>= f else f ()) s (¬ R ∧ Q) b s₂ := by
  split
  · rename_i hR
    exact (Decides.of_error (bind_of_error hbad)).congr ⟨False.elim, fun h => h.1 hR⟩
  · rename_i hR
    exact (h hR).congr (and_iff_right hR).symm

end Reading

open Reading (Decides bind_of_ok)

namespace Scan

variable {c d : Cursor}

theorem below_decides (limit : Nat) (what : String) (n : Located Nat) :
    Decides (below limit what n) c (n.value < limit) () c := by
  unfold below
  split
  · exact (Decides.of_error rfl).congr ⟨False.elim, fun h => absurd h (Nat.not_lt.2 ‹_›)⟩
  · exact (Decides.of_ok rfl).congr ⟨fun _ => Nat.lt_of_not_le ‹_›, fun _ => trivial⟩

/-! ## Accepted scans -/

/-- If the scan is accepted at `c`, its value and the place behind it have `Q`. -/
def Yields (scan : Scan α) (c : Cursor) (Q : α → Cursor → Prop) : Prop :=
  ∀ a d, scan c = .ok a d → Q a d

namespace Yields

variable {scan : Scan α} {f : α → Scan β} {Q : α → Cursor → Prop} {R : β → Cursor → Prop}

theorem of_pure {a : α} (h : Q a c) : Yields (pure a) c Q := by
  rintro _ _ ⟨⟩
  exact h

theorem of_refuse {cause : Cause} {offset : Nat} : Yields (refuse cause offset) c Q := nofun

theorem of_unexpected {wanted : String} {found : Token} : Yields (unexpected wanted found) c Q := nofun

theorem bind (h : Yields scan c Q) (hf : ∀ a d, Q a d → Yields (f a) d R) :
    Yields (scan >>= f) c R := by
  intro b e h'
  obtain ⟨a, d, h₁, h₂⟩ := bind_eq_ok.1 h'
  exact hf a d (h a d h₁) b e h₂

/-- A scan whose value does not matter. -/
theorem skip (hf : ∀ a d, Yields (f a) d R) : Yields (scan >>= f) c R :=
  bind (Q := fun _ _ => True) (fun _ _ _ => trivial) fun a d _ => hf a d

theorem guard {P : Prop} {_ : Decidable P} {cause : Cause} {offset : Nat} {f : Unit → Scan β}
    (h : ¬ P → Yields (f ()) c R) : Yields (if P then refuse cause offset >>= f else f ()) c R := by
  split
  · exact of_refuse.bind (Q := fun _ _ => False) nofun
  · exact h ‹_›

theorem next {f : Token → Scan β} (h : Yields (f c.upcoming) c.advance R) :
    Yields (Scan.next >>= f) c R := fun b d e => by
  obtain ⟨_, _, ⟨⟩, e⟩ := bind_eq_ok.1 e
  exact h b d e

theorem expect {kind : TokenKind} {wanted : String} {f : Unit → Scan β}
    (h : c.upcoming.kind = kind → Yields (f ()) c.advance R) :
    Yields (Scan.expect kind wanted >>= f) c R := fun b d e => by
  obtain ⟨⟨⟩, _, e₁, e₂⟩ := bind_eq_ok.1 e
  obtain ⟨hkind, rfl⟩ := expect_eq_ok.1 e₁
  exact h hkind b d e₂

theorem word {wanted : String} {f : Token → Scan β}
    (h : c.upcoming.kind = .identifier → Yields (f c.upcoming) c.advance R) :
    Yields (Scan.word wanted >>= f) c R := fun b d e => by
  obtain ⟨_, _, e₁, e₂⟩ := bind_eq_ok.1 e
  obtain ⟨hkind, rfl, rfl⟩ := word_eq_ok.1 e₁
  exact h hkind b d e₂

theorem integer {wanted : String} {f : Located Nat → Scan β}
    (h : ∀ n, c.upcoming.kind = .integer n → Yields (f ⟨n, c.upcoming.offset⟩) c.advance R) :
    Yields (Scan.integer wanted >>= f) c R := fun b d e => by
  obtain ⟨_, _, e₁, e₂⟩ := bind_eq_ok.1 e
  obtain ⟨n, hkind, rfl, rfl⟩ := integer_eq_ok.1 e₁
  exact h n hkind b d e₂

end Yields

theorem below_yields (limit : Nat) (what : String) (n : Located Nat) :
    Yields (below limit what n) c fun _ d => n.value < limit ∧ d = c := by
  unfold below
  split
  · exact .of_refuse
  · exact .of_pure ⟨Nat.lt_of_not_le ‹_›, rfl⟩

/-! ## Numbers -/

theorem number_eq_ok {t : Token} {v : Single} :
    number t c = .ok v d ↔ t.IsNumber v ∧ d = c := by
  unfold number Token.IsNumber
  cases t.number? with
  | none => exact ⟨nofun, nofun⟩
  | some w =>
    dsimp only
    split
    · constructor
      · rintro ⟨⟩
        exact ⟨⟨rfl, ‹_›⟩, rfl⟩
      · rintro ⟨⟨⟨⟩, -⟩, rfl⟩
        rfl
    · constructor
      · rintro ⟨⟩
      · rintro ⟨⟨⟨⟩, hfinite⟩, -⟩
        exact absurd hfinite ‹_›

/-! ## Suffixes -/

theorem suffixOf?_eq_some {accepted : List String} {text : String} :
    suffixOf? accepted c.rest = some text ↔
      text ∈ accepted ∧ c.Suffixed (some text) c.advance.advance := by
  have hshows : c.Suffixed (some text) c.advance.advance ↔ c.upcoming.kind = .dot ∧
      c.advance.upcoming.kind = .identifier ∧ c.advance.upcoming.text = text := by
    simp only [Cursor.Suffixed, Cursor.Shows, Token.IsWord, and_true]
  rw [hshows]
  cases h : c.rest with
  | nil => simp [suffixOf?, Cursor.upcoming, h, Cursor.endToken, Token.endAt]
  | cons point ts =>
    cases ts with
    | nil => simp [suffixOf?, Cursor.upcoming, Cursor.advance, h, Cursor.endToken, Token.endAt]
    | cons name ts =>
      simp only [suffixOf?, Cursor.upcoming, Cursor.advance, h, List.head?_cons, List.tail_cons,
        Option.getD_some, Bool.and_eq_true, beq_iff_eq, List.contains_iff_mem,
        Option.ite_none_right_eq_some, Option.some_inj]
      constructor
      · rintro ⟨⟨⟨hpoint, hname⟩, hmem⟩, rfl⟩
        exact ⟨hmem, hpoint, hname, rfl⟩
      · rintro ⟨hmem, hpoint, hname, rfl⟩
        exact ⟨⟨⟨hpoint, hname⟩, hmem⟩, rfl⟩

theorem suffix?_eq_some {accepted : List String} {text : String} :
    suffix? accepted c = .ok (some text) d ↔ text ∈ accepted ∧ c.Suffixed (some text) d := by
  have hplace : c.Suffixed (some text) d → d = c.advance.advance := fun ⟨_, _, h⟩ => h
  rw [suffix?_eq]
  cases h : suffixOf? accepted c.rest with
  | some word =>
    constructor
    · rintro ⟨⟩
      exact suffixOf?_eq_some.1 h
    · rintro ⟨hmem, hsuffix⟩
      obtain rfl := hplace hsuffix
      rw [Option.some.inj (h.symm.trans (suffixOf?_eq_some.2 ⟨hmem, hsuffix⟩))]
  | none =>
    constructor
    · rintro ⟨⟩
    · rintro ⟨hmem, hsuffix⟩
      obtain rfl := hplace hsuffix
      cases h.symm.trans (suffixOf?_eq_some.2 ⟨hmem, hsuffix⟩)

theorem suffix?_eq_none {accepted : List String} :
    suffix? accepted c = .ok none d ↔ d = c ∧ ∀ text ∈ accepted, ∀ e, ¬ c.Suffixed (some text) e := by
  rw [suffix?_eq]
  cases h : suffixOf? accepted c.rest with
  | some word =>
    constructor
    · rintro ⟨⟩
    · rintro ⟨-, hnone⟩
      obtain ⟨hmem, hsuffix⟩ := suffixOf?_eq_some.1 h
      exact absurd hsuffix (hnone word hmem _)
  | none =>
    constructor
    · rintro ⟨⟩
      refine ⟨rfl, fun text hmem e hsuffix => ?_⟩
      obtain ⟨-, -, rfl⟩ := id hsuffix
      cases h.symm.trans (suffixOf?_eq_some.2 ⟨hmem, hsuffix⟩)
    · rintro ⟨rfl, -⟩
      rfl

end Scan

end ShaderAssembly
