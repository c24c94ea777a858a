import ShaderAssembly.Proofs.Locality.Scan
/-!
# Statements depend on what they read

* operands, instructions and declarations are local, so they only move forward;
* **`Parse.registersWithin_eq`**, `Scan.paramItemsWithin_eq`: the loops inside a statement end;
* `Parse.statementHere` is local: what follows a statement does not change it.
-/

namespace ShaderAssembly

namespace Parse

variable (kind : ProgramKind) (limits : Limits)

/-! ## Operands -/

instance : Scan.IsLocal relativeOffset := by
  unfold relativeOffset
  infer_instance

instance (array : Nat) (name : Token) : IsLocal (relativeIndex kind array name) := by
  unfold relativeIndex
  infer_instance

instance (array length : Nat) : IsLocal (elementOf kind array length) := by
  unfold elementOf
  refine .andThen fun _ => .andThen fun t => ?_
  split <;> infer_instance

instance (name : Token) : IsLocal (declaredRegister kind name) := by
  unfold declaredRegister
  refine .andThen fun ⟨i, v⟩ => ?_
  dsimp only
  split
  · infer_instance
  refine .andThen fun bracket => ?_
  split <;> infer_instance

instance (first : Token) : IsLocal (sourceRegister kind limits first) := by
  unfold sourceRegister
  split
  case h_4 => split <;> infer_instance
  all_goals infer_instance

instance (bare negate : Bool) (start : Token) :
    IsLocal (unsignedSource kind limits bare negate start) := by
  unfold unsignedSource
  infer_instance

instance (first : Token) (bare : Bool) : IsLocal (source kind limits first bare) := by
  rw [source_eq]
  split <;> infer_instance

instance (first : Token) : IsLocal (destinationVariable kind limits first) := by
  unfold destinationVariable
  dsimp only
  split
  · infer_instance
  split
  case h_6 =>
    refine .andThen fun ⟨i, v⟩ => ?_
    dsimp only
    infer_instance
  all_goals infer_instance

instance (first : Token) (opcode : Opcode) : IsLocal (destination kind limits first opcode) := by
  unfold destination
  refine .andThen fun ⟨var, variableKind⟩ => ?_
  dsimp only
  infer_instance

instance : IsLocal (texture limits) := by
  unfold texture
  refine .andThen fun name => ?_
  dsimp only
  split
  · infer_instance
  refine .andThen fun unit => ?_
  split
  · infer_instance
  refine .andThen fun _ => .andThen fun shape => ?_
  split <;> infer_instance

/-! ## Instructions -/

instance (opcode : Opcode) : IsLocal (operand kind limits opcode) := by
  unfold operand
  refine .andThen fun first => .andThen fun s => ?_
  split <;> infer_instance

instance (opcode : Opcode) (n : Nat) : IsLocal (moreOperands kind limits opcode n) := by
  induction n with
  | zero =>
    unfold moreOperands
    infer_instance
  | succ n ih =>
    unfold moreOperands
    infer_instance

instance (opcode : Opcode) (n : Nat) : IsLocal (operands kind limits opcode n) := by
  cases n <;> unfold operands <;> infer_instance

instance (opcode : Opcode) : IsLocal (destination? kind limits opcode) := by
  unfold destination?
  infer_instance

instance (opcode : Opcode) : IsLocal (texture? limits opcode) := by
  unfold texture?
  infer_instance

instance (opcode : Opcode) : IsLocal (extended? kind opcode) := by
  unfold extended?
  infer_instance

instance (i : Instruction) :
    IsLocal (modify fun p => { p with draft := p.draft.push i } : Parse Unit) where
  reads e := by
    cases e
    exact ⟨[], rfl, fun _ _ => rfl⟩
  moves e := by
    cases e
    exact .refl _

instance (word : Token) : IsLocal (instruction kind limits word) := by
  unfold instruction
  dsimp only
  split <;> infer_instance

/-! ## Declarations -/

instance (start : Token) : IsLocal (option kind start) := by
  unfold option
  dsimp only
  infer_instance

/-- One name of a register and the token behind it. -/
def registerRound (variableKind : VariableKind) : Parse Token := do
  let name ← Scan.word "a register name"
  edit (·.declare limits name.text variableKind name.offset) name.offset
  Scan.next

instance (variableKind : VariableKind) : IsLocal (registerRound limits variableKind) := by
  unfold registerRound
  infer_instance

theorem registersWithin_succ (variableKind : VariableKind) (bound : Nat) :
    registersWithin limits variableKind (bound + 1) = (do
      let t ← registerRound limits variableKind
      match t.kind with
      | .comma => registersWithin limits variableKind bound
      | .semicolon => return
      | _ => Scan.unexpected "',' or ';'" t) := by
  rw [registerRound, bind_assoc]
  refine congrArg _ (funext fun name => ?_)
  exact (bind_assoc (m := Parse) _ _ _).symm

/-- A round that does not meet the end of the text reads a token at least. -/
theorem length_of_registerRound {variableKind : VariableKind} {p q : Progress} {t : Token}
    (e : registerRound limits variableKind p = .ok t q) (h : t.kind ≠ .endOfText) :
    q.cursor.rest.length < p.cursor.rest.length := by
  obtain ⟨name, p₁, e₁, e⟩ := bind_eq_ok.1 e
  obtain ⟨_, p₂, e₂, e⟩ := bind_eq_ok.1 e
  obtain ⟨d, e₃, rfl⟩ := lift_eq_ok.1 e
  have h₁ := (IsLocal.suffix e₁).length_le
  have h₂ := (IsLocal.suffix e₂).length_le
  have h₃ := congrArg List.length (Scan.rest_of_next e₃ h)
  rw [List.length_cons] at h₃
  dsimp only
  omega

/-- The names of registers read the same tokens again, if more rounds are allowed than there are
tokens. -/
theorem registersWithin_reads (variableKind : VariableKind) (bound : Nat) {p q : Progress} {u : Unit}
    (e : registersWithin limits variableKind bound p = .ok u q) :
    ∃ used, p.cursor.rest = used ++ q.cursor.rest ∧
      ∀ more, Agree q.cursor.rest more → ∀ rounds, used.length < rounds →
        registersWithin limits variableKind rounds (p.withRest (used ++ more)) =
          .ok u (q.withRest more) := by
  induction bound generalizing p q with
  | zero =>
    obtain ⟨t, p₁, -, e⟩ := bind_eq_ok.1 e
    cases e
  | succ bound ih =>
    rw [registersWithin_succ] at e
    obtain ⟨t, p₁, e₁, e₂⟩ := bind_eq_ok.1 e
    obtain ⟨used₁, h₁, again₁⟩ := IsLocal.reads e₁
    cases ht : t.kind with
    | comma =>
      simp only [ht] at e₂
      obtain ⟨used₂, h₂, again₂⟩ := ih e₂
      have hlt := length_of_registerRound limits e₁ (by rw [ht]; decide)
      refine ⟨used₁ ++ used₂, by rw [h₁, h₂, List.append_assoc], fun more hmore rounds hr => ?_⟩
      obtain ⟨rounds, rfl⟩ := Nat.exists_eq_add_one_of_ne_zero (Nat.ne_zero_of_lt hr)
      have hr' : used₂.length < rounds := by
        rw [h₁] at hlt
        simp only [List.length_append] at hlt hr
        omega
      rw [registersWithin_succ, List.append_assoc]
      refine bind_eq_ok.2 ⟨_, _, again₁ _ (h₂ ▸ hmore.append used₂), ?_⟩
      simp only [ht]
      exact again₂ more hmore rounds hr'
    | semicolon =>
      simp only [ht] at e₂
      cases e₂
      refine ⟨used₁, h₁, fun more hmore rounds hr => ?_⟩
      obtain ⟨rounds, rfl⟩ := Nat.exists_eq_add_one_of_ne_zero (Nat.ne_zero_of_lt hr)
      rw [registersWithin_succ]
      refine bind_eq_ok.2 ⟨_, _, again₁ _ hmore, ?_⟩
      simp only [ht]
      rfl
    | _ =>
      simp only [ht] at e₂
      cases e₂

theorem registersWithin_moves (variableKind : VariableKind) (bound : Nat) {p q : Progress} {u : Unit}
    (e : registersWithin limits variableKind bound p = .ok u q) : p.cursor.LeadsTo q.cursor := by
  induction bound generalizing p with
  | zero =>
    obtain ⟨t, p₁, -, e⟩ := bind_eq_ok.1 e
    cases e
  | succ bound ih =>
    rw [registersWithin_succ] at e
    obtain ⟨t, p₁, e₁, e₂⟩ := bind_eq_ok.1 e
    have hmoves := IsLocal.moves e₁
    cases ht : t.kind with
    | comma =>
      simp only [ht] at e₂
      exact hmoves.trans (ih e₂)
    | semicolon =>
      simp only [ht] at e₂
      cases e₂
      exact hmoves
    | _ =>
      simp only [ht] at e₂
      cases e₂

instance (variableKind : VariableKind) : IsLocal (registers limits variableKind) where
  reads {p u q} e := by
    obtain ⟨used, hused, again⟩ := registersWithin_reads limits variableKind _ e
    refine ⟨used, hused, fun more hmore => again more hmore _ ?_⟩
    simp only [Progress.withRest, Cursor.rest_withRest, List.length_append]
    omega
  moves e := registersWithin_moves limits variableKind _ e

/-- Rounds beyond the number of tokens change nothing: the names of registers end. -/
theorem registersWithin_eq {variableKind : VariableKind} {rounds rounds' : Nat} {p : Progress}
    (h : p.cursor.rest.length < rounds) (h' : p.cursor.rest.length < rounds') :
    registersWithin limits variableKind rounds p =
      registersWithin limits variableKind rounds' p := by
  induction rounds generalizing p rounds' with
  | zero => omega
  | succ rounds ih =>
    obtain ⟨rounds', rfl⟩ := Nat.exists_eq_add_one_of_ne_zero (Nat.ne_zero_of_lt h')
    rw [registersWithin_succ, registersWithin_succ]
    simp only [Bind.bind, EStateM.bind]
    cases e : registerRound limits variableKind p with
    | error f p₁ => rfl
    | ok t p₁ =>
      cases ht : t.kind with
      | comma =>
        have hlt := length_of_registerRound limits e (by rw [ht]; decide)
        simp only [ht]
        exact ih (by omega) (by omega)
      | _ => simp only [ht]

instance : IsLocal (attrib kind limits) := by
  unfold attrib
  dsimp only
  infer_instance

instance : IsLocal (output kind limits) := by
  unfold output
  dsimp only
  infer_instance

instance : IsLocal secondName := by
  unfold secondName
  refine .andThen fun name => .andThen fun _ => .andThen fun target => .andThen fun ⟨i, v⟩ => ?_
  infer_instance

instance : Scan.IsLocal arraySize := by
  unfold arraySize
  refine .andThen fun _ => .andThen fun t => ?_
  split <;> infer_instance

instance (name : Token) : IsLocal (paramArray limits name) := by
  unfold paramArray
  dsimp only
  refine .andThen fun size => .andThen fun _ => .andThen fun _ => .andThen fun items => .andThen fun _ => ?_
  split <;> infer_instance

instance : IsLocal (param limits) := by
  unfold param
  infer_instance

/-! ## Statements -/

instance (word : Token) : IsLocal (statement kind limits word) := by
  unfold statement
  dsimp only
  split <;> infer_instance

/-- The statement at the token `t`. -/
def statementAt (t : Token) : Parse Bool :=
  match t.kind with
  | .endOfText => refuse .missingEnd t.offset
  | .identifier => statement kind limits t
  | _ => Scan.unexpected "a statement" t

theorem statementHere_eq (p : Progress) :
    statementHere kind limits p = statementAt kind limits p.cursor.current p := rfl

instance (t : Token) : IsLocal (statementAt kind limits t) := by
  unfold statementAt
  split <;> infer_instance

instance : IsLocal (statementHere kind limits) where
  reads {p _ _} e := (inferInstance : IsLocal (statementAt kind limits p.cursor.current)).reads e
  moves {p _ _} e := (inferInstance : IsLocal (statementAt kind limits p.cursor.current)).moves e

end Parse

end ShaderAssembly
