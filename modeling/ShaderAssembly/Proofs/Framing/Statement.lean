import ShaderAssembly.Proofs.Framing.Scan
import ShaderAssembly.Proofs.Locality.Statement
/-!
# Statements end with their first semicolon

* operands stay inside the statement;
* instructions and declarations read up to the first semicolon and stop there;
* `Parse.openedBy`: the statements but `END`, each of which reads up to the first semicolon;
* **`Parse.statementHere_eq_ok`**: a statement that goes well is `END` or one of these.
-/

namespace ShaderAssembly.Parse

variable (kind : ProgramKind) (limits : Limits)

/-! ## Operands -/

/-- The sign that comes next is read before the offset. -/
instance : Avoids Token.IsForeign relativeOffset where
  reads {c d offset} e := by
    unfold relativeOffset at e
    obtain ⟨sign, c₁, e₁, e₂⟩ := Scan.bind_eq_ok.1 e
    cases e₁
    split at e₂
    · cases e₂
      exact ⟨[], rfl, List.forall_mem_nil _⟩
    · rename_i hsign
      refine Avoids.of_upcoming (fun _ => inferInstance) (fun h => hsign ?_) e₂
      have hkind : c.upcoming.kind = .semicolon ∨ c.upcoming.kind = .identifier := h.kind_eq
      obtain h | h := hkind <;> simp [h]

instance (array : Nat) (name : Token) : StaysInside (relativeIndex kind array name) := by
  unfold relativeIndex
  infer_instance

/-- A subscript, from its bracket on, which may be anything that ends no statement. -/
theorem reads_elementOf {array length : Nat} {p q : Progress} {r : Register}
    (hp : ¬ p.cursor.upcoming.Terminates) (e : elementOf kind array length p = .ok r q) :
    ∃ used, p.cursor.rest = used ++ q.cursor.rest ∧ ∀ t ∈ used, ¬ t.Terminates := by
  unfold elementOf at e
  refine Avoids.of_upcoming (fun _ => ?_) hp e
  refine .next (fun t ht _ _ _ e => ?_) fun t => ?_
  · simp only [ht.1] at e
    cases e
  · dsimp only
    split <;> infer_instance

instance (name : Token) : StaysInside (declaredRegister kind name) := by
  unfold declaredRegister
  refine .andThen fun ⟨i, v⟩ => ?_
  dsimp only
  split
  · infer_instance
  refine ⟨fun {p q r} e => ?_⟩
  obtain ⟨bracket, p₁, e₁, e₂⟩ := bind_eq_ok.1 e
  cases e₁
  cases hk : v.kind with
  | paramArray items =>
    simp only [hk] at e₂
    split at e₂
    · rename_i hbracket
      rw [beq_iff_eq] at hbracket
      exact reads_elementOf kind (fun h => nomatch hbracket.symm.trans h.1) e₂
    · cases e₂
  | _ =>
    simp only [hk] at e₂
    split at e₂
    · cases e₂
    · cases e₂
      exact ⟨[], rfl, List.forall_mem_nil _⟩

instance (first : Token) : StaysInside (sourceRegister kind limits first) := by
  unfold sourceRegister
  split
  case h_4 => split <;> infer_instance
  all_goals infer_instance

instance : Declines Token.Terminates (sourceRegister kind limits) where
  refused {t} ht _ _ _ e := by
    simp only [sourceRegister, ht.1] at e
    cases e

instance (bare negate : Bool) (start : Token) :
    StaysInside (unsignedSource kind limits bare negate start) := by
  unfold unsignedSource
  infer_instance

instance (bare negate : Bool) : Declines Token.Terminates (unsignedSource kind limits bare negate) where
  refused ht _ _ _ e := by
    obtain ⟨_, _, e, -⟩ := bind_eq_ok.1 e
    exact Declines.refused ht _ _ _ e

instance (first : Token) (bare : Bool) : StaysInside (source kind limits first bare) := by
  rw [source_eq]
  split <;> infer_instance

instance (bare : Bool) : Declines Token.Terminates fun first => source kind limits first bare where
  refused {t} ht s a s' e := by
    rw [source_eq] at e
    simp only [ht.1] at e
    exact Declines.refused ht s a s' e

instance (opcode : Opcode) : StaysInside (operand kind limits opcode) := by
  unfold operand
  refine .behind fun first => .andThen fun s => ?_
  split <;> infer_instance

instance (opcode : Opcode) (n : Nat) : StaysInside (moreOperands kind limits opcode n) := by
  induction n with
  | zero =>
    unfold moreOperands
    infer_instance
  | succ n ih =>
    unfold moreOperands
    infer_instance

instance (opcode : Opcode) (n : Nat) : StaysInside (operands kind limits opcode n) := by
  cases n <;> unfold operands <;> infer_instance

instance (first : Token) : StaysInside (destinationVariable kind limits first) := by
  unfold destinationVariable
  dsimp only
  split
  · infer_instance
  split
  case h_6 =>
    refine .andThen fun ⟨i, v⟩ => ?_
    dsimp only
    infer_instance
  all_goals infer_instance

instance : Declines Token.Terminates (destinationVariable kind limits) where
  refused {t} ht _ _ _ e := by
    simp only [destinationVariable, ht.1] at e
    cases e

instance (first : Token) (opcode : Opcode) :
    StaysInside (destination kind limits first opcode) := by
  unfold destination
  refine .andThen fun ⟨var, variableKind⟩ => ?_
  dsimp only
  infer_instance

instance (opcode : Opcode) : Declines Token.Terminates fun first => destination kind limits first opcode where
  refused ht _ _ _ e := by
    obtain ⟨_, _, e, -⟩ := bind_eq_ok.1 e
    exact Declines.refused ht _ _ _ e

instance (opcode : Opcode) : StaysInside (destination? kind limits opcode) := by
  unfold destination?
  infer_instance

instance : StaysInside (texture limits) := by
  unfold texture
  refine .andThen fun name => ?_
  dsimp only
  split
  · infer_instance
  refine .andThen fun unit => ?_
  split
  · infer_instance
  refine .andThen fun _ => .andThen fun shape => ?_
  split <;> infer_instance

instance (opcode : Opcode) : StaysInside (texture? limits opcode) := by
  unfold texture?
  infer_instance

instance (opcode : Opcode) : StaysInside (extended? kind opcode) := by
  unfold extended?
  infer_instance

instance (word : Token) : Closes (instruction kind limits word) := by
  unfold instruction
  dsimp only
  split <;> infer_instance

/-! ## Declarations -/

instance (start : Token) : Closes (option kind start) := by
  unfold option
  dsimp only
  infer_instance

instance (variableKind : VariableKind) (bound : Nat) :
    Closes (registersWithin limits variableKind bound) := by
  induction bound with
  | zero =>
    unfold registersWithin
    refine .next (fun t _ => inferInstance) fun t _ => ⟨nofun⟩
  | succ bound ih =>
    unfold registersWithin
    refine .andThen fun name => .andThen fun _ => .next (fun t ht => ?_) fun t ht => ?_
    · simp only [ht]
      infer_instance
    · split
      · exact ih
      · exact absurd ‹_› ht
      · exact ⟨nofun⟩

instance (variableKind : VariableKind) : Closes (registers limits variableKind) := by
  unfold registers
  infer_instance

instance : Closes (attrib kind limits) := by
  unfold attrib
  dsimp only
  infer_instance

instance : Closes (output kind limits) := by
  unfold output
  dsimp only
  infer_instance

instance : Closes secondName := by
  unfold secondName
  infer_instance

instance : StaysInside arraySize := by
  unfold arraySize
  refine .andThen fun _ => .next (fun t ht _ _ _ e => ?_) fun t => ?_
  · simp only [ht.1] at e
    cases e
  · split <;> infer_instance

instance (name : Token) : Closes (paramArray limits name) := by
  unfold paramArray
  dsimp only
  refine .andThen fun size => .andThen fun _ => .andThen fun _ => .andThen fun items => ?_
  refine .before fun _ => ?_
  split <;> infer_instance

instance : Closes (param limits) := by
  unfold param
  refine .andThen fun name => .andThen fun bracket => ?_
  infer_instance

/-! ## Statements -/

/-- The statements but `END`, from behind the word that opens them. -/
def openedBy (word : Token) : Parse Unit :=
  match word.text with
  | "OPTION" => option kind word
  | "TEMP" => registers limits .temporary
  | "ADDRESS" => do
    if kind != .vertex then refuse .addressInFragment word.offset
    registers limits .address
  | "ATTRIB" => attrib kind limits
  | "PARAM" => param limits
  | "OUTPUT" => output kind limits
  | "ALIAS" => secondName
  | _ => instruction kind limits word

theorem statement_eq (word : Token) : statement kind limits word =
    if word.text = "END" then return false
    else do
      openedBy kind limits word
      return true := by
  by_cases hend : word.text = "END"
  · simp only [statement, hend, if_true]
  · rw [if_neg hend]
    unfold statement openedBy
    dsimp only
    split
    case h_1 => exact absurd ‹_› hend
    case h_4 htext =>
      simp only [htext]
      split <;> rfl
    all_goals simp only [*]

instance (word : Token) : Closes (openedBy kind limits word) := by
  unfold openedBy
  dsimp only
  split <;> infer_instance

/-- A statement that goes well starts with a word. `END` reads nothing, and any other word opens one
of the statements that read up to the first semicolon. -/
theorem statementHere_eq_ok {goesOn : Bool} {p q : Progress}
    (e : statementHere kind limits p = .ok goesOn q) :
    p.cursor.current.kind = .identifier ∧
      if goesOn then
        p.cursor.current.text ≠ "END" ∧ openedBy kind limits p.cursor.current p = .ok () q
      else p.cursor.current.text = "END" ∧ q = p := by
  rw [statementHere_eq, statementAt] at e
  cases hkind : p.cursor.current.kind with
  | identifier =>
    simp only [hkind, statement_eq] at e
    refine ⟨rfl, ?_⟩
    split at e
    · cases e
      exact ⟨‹_›, rfl⟩
    · obtain ⟨_, q, e, ⟨⟩⟩ := bind_eq_ok.1 e
      exact ⟨‹_›, e⟩
  | _ =>
    simp only [hkind] at e
    cases e

end ShaderAssembly.Parse
