import ShaderAssembly.ProgramReader
/-!
# Steps of reading as equations

What single steps do from a given state, so that no other proof opens the steps.

* `Reading.bind_eq_ok`, `Scan.bind_eq_ok`, `Parse.bind_eq_ok`: a step behind another one succeeds if
  both do;
* `Reading.bind_eq_error`: it fails if one of them does;
* `Reading.bind_of_ok`, `Reading.bind_of_error`: behind a step that succeeds the next one goes on,
  behind one that fails none does;
* `Cursor.Shows`: what the next tokens of a cursor are;
* `Scan.next_eq`, `Scan.peek_eq`, `Scan.expect_eq_ok`, `Scan.word_eq_ok`, `Scan.integer_eq_ok`,
  `Scan.index_eq_ok`, `Scan.suffix?_eq`: tokens;
* `Parse.lift_eq`, `Parse.lift_of_ok`, `Parse.edit_eq`, `Parse.resolve_eq`, `Parse.implicit_eq`: a draft;
* `Parse.source_eq`: a source is a sign and what stands behind it.
-/

namespace ShaderAssembly

variable {α β σ : Type}

/-! ## Any steps -/

namespace Reading

theorem bind_eq_ok {step : EStateM Fault σ α} {f : α → EStateM Fault σ β} {s s' : σ} {b : β} :
    (step >>= f) s = .ok b s' ↔ ∃ a s₁, step s = .ok a s₁ ∧ f a s₁ = .ok b s' := by
  simp only [Bind.bind, EStateM.bind]
  cases e : step s with
  | ok a s₁ =>
    refine ⟨fun h => ⟨a, s₁, rfl, h⟩, ?_⟩
    rintro ⟨_, _, ⟨⟩, h⟩
    exact h
  | error f s₁ =>
    constructor
    · intro h
      cases h
    · rintro ⟨_, _, h, -⟩
      cases h

theorem bind_eq_error {step : EStateM Fault σ α} {f : α → EStateM Fault σ β} {s s' : σ} {g : Fault} :
    (step >>= f) s = .error g s' ↔
      step s = .error g s' ∨ ∃ a s₁, step s = .ok a s₁ ∧ f a s₁ = .error g s' := by
  simp only [Bind.bind, EStateM.bind]
  cases e : step s with
  | ok a s₁ =>
    refine ⟨fun h => .inr ⟨a, s₁, rfl, h⟩, ?_⟩
    rintro (h | ⟨_, _, ⟨⟩, h⟩)
    · cases h
    · exact h
  | error f s₁ =>
    constructor
    · intro h
      cases h
      exact .inl rfl
    · rintro (⟨⟨⟩⟩ | ⟨_, _, h, -⟩)
      · rfl
      · cases h

theorem bind_of_ok {step : EStateM Fault σ α} {f : α → EStateM Fault σ β} {s s' : σ} {a : α}
    (h : step s = .ok a s') : (step >>= f) s = f a s' := by
  simp only [Bind.bind, EStateM.bind, h]

theorem bind_of_error {step : EStateM Fault σ α} {f : α → EStateM Fault σ β} {s s' : σ} {g : Fault}
    (h : step s = .error g s') : (step >>= f) s = .error g s' := bind_eq_error.2 (.inl h)

/-- Asking for the state changes nothing. -/
theorem get_bind (f : σ → EStateM Fault σ β) (s : σ) : (get >>= f) s = f s s := rfl

end Reading

/-! ## Cursors -/

namespace Cursor

/-- The next tokens are as the conditions say, one by one; behind them `c` has become `d`. -/
def Shows : Cursor → List (Token → Prop) → Cursor → Prop
  | c, [], d => d = c
  | c, P :: Ps, d => P c.upcoming ∧ Shows c.advance Ps d

theorem shows_append {c e : Cursor} {Ps Qs : List (Token → Prop)} :
    c.Shows (Ps ++ Qs) e ↔ ∃ d, c.Shows Ps d ∧ d.Shows Qs e := by
  induction Ps generalizing c with
  | nil => simp [Shows]
  | cons P Ps ih => simp [Shows, ih, and_assoc]

end Cursor

/-! ## Steps that read tokens -/

namespace Scan

theorem bind_eq_ok {scan : Scan α} {f : α → Scan β} {c d : Cursor} {b : β} :
    (scan >>= f) c = .ok b d ↔ ∃ a c₁, scan c = .ok a c₁ ∧ f a c₁ = .ok b d :=
  Reading.bind_eq_ok

theorem next_eq (c : Cursor) : next c = .ok c.upcoming c.advance := rfl

theorem peek_eq (c : Cursor) : peek c = .ok c.upcoming c := rfl

theorem expect_eq_ok {kind : TokenKind} {wanted : String} {c d : Cursor} :
    expect kind wanted c = .ok () d ↔ c.upcoming.kind = kind ∧ d = c.advance := by
  rw [expect, Reading.bind_of_ok (next_eq c)]
  by_cases h : c.upcoming.kind = kind
  · rw [if_neg (by simp [h])]
    exact ⟨fun e => by cases e; exact ⟨h, rfl⟩, fun ⟨_, e⟩ => e ▸ rfl⟩
  · rw [if_pos (by simpa using h)]
    exact ⟨nofun, fun e => absurd e.1 h⟩

theorem word_eq_ok {wanted : String} {c d : Cursor} {t : Token} :
    word wanted c = .ok t d ↔ c.upcoming.kind = .identifier ∧ t = c.upcoming ∧ d = c.advance := by
  rw [word, Reading.bind_of_ok (next_eq c)]
  dsimp only
  by_cases h : c.upcoming.kind = .identifier
  · rw [if_neg (by simp [h])]
    exact ⟨fun e => by cases e; exact ⟨h, rfl, rfl⟩, fun ⟨_, e, e'⟩ => e ▸ e' ▸ rfl⟩
  · rw [if_pos (by simpa using h)]
    exact ⟨nofun, fun e => absurd e.1 h⟩

theorem integer_eq_ok {wanted : String} {c d : Cursor} {n : Located Nat} :
    integer wanted c = .ok n d ↔
      ∃ value, c.upcoming.kind = .integer value ∧ n = ⟨value, c.upcoming.offset⟩ ∧ d = c.advance := by
  rw [integer, Reading.bind_of_ok (next_eq c)]
  cases c.upcoming.kind with
  | integer m =>
    constructor
    · rintro ⟨⟩
      exact ⟨m, rfl, rfl, rfl⟩
    · rintro ⟨_, ⟨⟩, rfl, rfl⟩
      rfl
  | _ => exact ⟨nofun, nofun⟩

/-- A subscript is a number between brackets. -/
theorem index_eq_ok {c d : Cursor} {n : Located Nat} :
    index c = .ok n d ↔
      c.Shows [(·.kind = .leftBracket), (·.kind = .integer n.value), (·.kind = .rightBracket)] d ∧
        n.offset = c.advance.upcoming.offset := by
  constructor
  · intro e
    obtain ⟨⟨⟩, _, e₁, e⟩ := bind_eq_ok.1 e
    obtain ⟨_, _, e₂, e⟩ := bind_eq_ok.1 e
    obtain ⟨⟨⟩, _, e₃, ⟨⟩⟩ := bind_eq_ok.1 e
    obtain ⟨hleft, rfl⟩ := expect_eq_ok.1 e₁
    obtain ⟨_, hnumber, rfl, rfl⟩ := integer_eq_ok.1 e₂
    obtain ⟨hright, rfl⟩ := expect_eq_ok.1 e₃
    exact ⟨⟨hleft, hnumber, hright, rfl⟩, rfl⟩
  · obtain ⟨value, offset⟩ := n
    rintro ⟨⟨hleft, hnumber, hright, rfl⟩, rfl⟩
    rw [index, Reading.bind_of_ok (expect_eq_ok.2 ⟨hleft, rfl⟩),
      Reading.bind_of_ok (integer_eq_ok.2 ⟨value, hnumber, rfl, rfl⟩),
      Reading.bind_of_ok (expect_eq_ok.2 ⟨hright, rfl⟩)]
    rfl

theorem index?_eq_some {c d : Cursor} {n : Located Nat} :
    index? c = .ok (some n) d ↔ index c = .ok n d := by
  rw [index?, Reading.bind_of_ok (peek_eq c)]
  split
  · constructor
    · intro e
      obtain ⟨_, _, e, ⟨⟩⟩ := bind_eq_ok.1 e
      exact e
    · intro e
      rw [Reading.bind_of_ok e]
      rfl
  · rename_i hbracket
    exact ⟨nofun, fun e => absurd (beq_iff_eq.2 (index_eq_ok.1 e).1.1) hbracket⟩

theorem index?_eq_none {c d : Cursor} :
    index? c = .ok none d ↔ c.upcoming.kind ≠ .leftBracket ∧ d = c := by
  rw [index?, Reading.bind_of_ok (peek_eq c)]
  split
  · rename_i hbracket
    refine ⟨fun e => ?_, fun h => absurd (beq_iff_eq.1 hbracket) h.1⟩
    obtain ⟨_, _, -, ⟨⟩⟩ := bind_eq_ok.1 e
  · rename_i hbracket
    constructor
    · rintro ⟨⟩
      exact ⟨by simpa using hbracket, rfl⟩
    · rintro ⟨-, rfl⟩
      rfl

/-- The word of a suffix, if the tokens start with a point and one of the words accepted. -/
def suffixOf? (accepted : List String) : List Token → Option String
  | point :: name :: _ =>
    if point.kind == .dot && name.kind == .identifier && accepted.contains name.text then
      some name.text
    else none
  | _ => none

theorem suffix?_eq (accepted : List String) (c : Cursor) : suffix? accepted c =
    match suffixOf? accepted c.rest with
    | some word => .ok (some word) c.advance.advance
    | none => .ok none c := by
  rw [suffix?, Reading.get_bind]
  cases c.rest with
  | nil => rfl
  | cons point ts =>
    cases ts with
    | nil => rfl
    | cons name ts =>
      dsimp only [suffixOf?]
      split <;> rfl

end Scan

/-! ## Steps that add to a draft -/

namespace Parse

theorem bind_eq_ok {step : Parse α} {f : α → Parse β} {p q : Progress} {b : β} :
    (step >>= f) p = .ok b q ↔ ∃ a p₁, step p = .ok a p₁ ∧ f a p₁ = .ok b q :=
  Reading.bind_eq_ok

theorem lift_eq (scan : Scan α) (p : Progress) : (liftM scan : Parse α) p =
    match scan p.cursor with
    | .ok a c => .ok a { p with cursor := c }
    | .error f c => .error f { p with cursor := c } := rfl

theorem lift_eq_ok {scan : Scan α} {p q : Progress} {a : α} :
    (liftM scan : Parse α) p = .ok a q ↔ ∃ d, scan p.cursor = .ok a d ∧ q = { p with cursor := d } := by
  rw [lift_eq]
  cases scan p.cursor with
  | ok b d =>
    constructor
    · rintro ⟨⟩
      exact ⟨d, rfl, rfl⟩
    · rintro ⟨_, ⟨⟩, rfl⟩
      rfl
  | error f d =>
    constructor
    · intro h
      cases h
    · rintro ⟨_, h, -⟩
      cases h

theorem lift_of_ok {scan : Scan α} {a : α} {c c' : Cursor} {d : Draft} (h : scan c = .ok a c') :
    (liftM scan : Parse α) ⟨c, d⟩ = .ok a ⟨c', d⟩ := lift_eq_ok.2 ⟨c', h, rfl⟩

theorem draft_bind_eq (f : Draft → Parse β) (p : Progress) : (draft >>= f) p = f p.draft p := rfl

theorem edit_eq (change : Draft → Except Cause Draft) (offset : Nat) (p : Progress) :
    edit change offset p =
      match change p.draft with
      | .ok d => .ok () { p with draft := d }
      | .error cause => .error ⟨cause, offset⟩ p := by
  rw [edit, draft_bind_eq]
  cases change p.draft <;> rfl

theorem resolve_eq (name : Token) (p : Progress) :
    resolve name p =
      match p.draft.lookup? name.text with
      | some v => .ok v p
      | none => .error ⟨.undeclared name.text, name.offset⟩ p := by
  rw [resolve, draft_bind_eq]
  cases p.draft.lookup? name.text <;> rfl

theorem resolve_eq_ok {name : Token} {p q : Progress} {v : Nat × Variable} :
    resolve name p = .ok v q ↔ p.draft.lookup? name.text = some v ∧ q = p := by
  rw [resolve_eq]
  cases p.draft.lookup? name.text with
  | some w =>
    constructor
    · rintro ⟨⟩
      exact ⟨rfl, rfl⟩
    · rintro ⟨⟨⟩, rfl⟩
      rfl
  | none =>
    constructor
    · rintro ⟨⟩
    · rintro ⟨⟨⟩, -⟩

theorem implicit_eq (kind : VariableKind) (start : Nat) (p : Progress) :
    implicit kind start p =
      match p.draft.implied? kind with
      | some i => .ok i p
      | none => .ok p.draft.vars.length
        { p with draft := p.draft.imply (p.cursor.textFrom start) kind start } := by
  rw [implicit, Reading.get_bind]
  cases p.draft.implied? kind <;> rfl

variable (kind : ProgramKind) (limits : Limits)

/-- A source behind its sign. -/
def unsignedSource (bare negate : Bool) (start : Token) : Parse Source := do
  let register ← sourceRegister kind limits start
  let swizzle ← if bare then pure .identity else Scan.swizzle kind
  return { negate, register, swizzle }

theorem source_eq (first : Token) (bare : Bool) : source kind limits first bare =
    match first.kind with
    | .minus => do unsignedSource kind limits bare true (← Scan.next)
    | .plus => do unsignedSource kind limits bare false (← Scan.next)
    | _ => unsignedSource kind limits bare false first := by
  unfold source unsignedSource
  cases first.kind <;> rfl

end Parse

end ShaderAssembly
