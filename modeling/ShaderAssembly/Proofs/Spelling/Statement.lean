import ShaderAssembly.Proofs.Framing.Declared
import ShaderAssembly.Proofs.Spelling.Step
/-!
# Statements bring up variables as they spell them

* operands and instructions bring up the variables of their bindings, each at the first word of its
  first binding;
* lists of registers and names for bindings bring up what they declare;
* all variables of a statement are spelled by its tokens, in their order.
-/

namespace ShaderAssembly.Parse

variable {kind : ProgramKind} {limits : Limits}

/-! ## Operands -/

instance (array : Nat) (name : Token) :
    Spells (.found kind limits) [] (relativeIndex kind array name) := by
  unfold relativeIndex
  split
  · infer_instance
  refine .andThen fun ⟨addr, v⟩ => ?_
  dsimp only
  split
  · infer_instance
  refine .andThen fun _ => .word (fun component => inferInstance) fun component hroot _ _ _ e => ?_
  have hx : component.text ≠ "x" := fun hx => absurd (hx ▸ hroot.2) (by decide)
  rw [if_pos (by simpa using hx)] at e
  cases e

/-- A point and a component stand behind the name of an address register. -/
theorem exists_rest_of_relativeIndex {array : Nat} {name : Token} {p q : Progress} {r : Register}
    (e : relativeIndex kind array name p = .ok r q) :
    ∃ point component more, p.cursor.rest = point :: component :: more ∧ component.text = "x" := by
  unfold relativeIndex at e
  split at e
  · cases e
  obtain ⟨⟨addr, v⟩, p₁, e₁, e₂⟩ := bind_eq_ok.1 e
  obtain ⟨-, rfl⟩ := resolve_eq_ok.1 e₁
  dsimp only at e₂
  split at e₂
  · cases e₂
  obtain ⟨_, p₂, e₃, e₄⟩ := bind_eq_ok.1 e₂
  obtain ⟨c₂, hdot, rfl⟩ := lift_eq_ok.1 e₃
  obtain ⟨component, p₃, e₅, e₆⟩ := bind_eq_ok.1 e₄
  obtain ⟨c₃, hword, rfl⟩ := lift_eq_ok.1 e₅
  split at e₆
  · cases e₆
  rename_i hx
  have hrest := (Scan.rest_of_expect (by decide) hdot).1
  rw [(Scan.rest_of_word hword).1] at hrest
  exact ⟨_, component, _, hrest, by simpa using hx⟩

instance (array : Nat) (name : Token) :
    Spells (.found kind limits) [name] (relativeIndex kind array name) :=
  .behind inferInstance fun p r q k d e hcurrent hread => by
    obtain ⟨point, component, more, hrest, hx⟩ := exists_rest_of_relativeIndex e
    obtain ⟨_, _, _, hrest', -, hne⟩ := Scan.exists_rest_of_bindingOf hread.1 hread.2
    rw [hrest] at hrest'
    obtain ⟨-, hrest'⟩ := List.cons.inj hrest'
    exact hne ((List.cons.inj hrest').1 ▸ hx)

instance (array length : Nat) : Spells (.found kind limits) [] (elementOf kind array length) := by
  unfold elementOf
  refine .next fun bracket => .behind (.next fun t => ?_) fun p r q k d e hcurrent hread => ?_
  · dsimp only
    split
    · exact .behind_of_kind (by simp [*])
    · infer_instance
    · infer_instance
  · -- a point stands behind the root of a binding, and no subscript starts with one
    obtain ⟨point, name, more, hrest, hdot, -⟩ := Scan.exists_rest_of_bindingOf hread.1 hread.2
    obtain ⟨t, p₁, e₁, e₂⟩ := bind_eq_ok.1 e
    cases e₁
    have hpoint : p.cursor.advance.current.kind = .dot := by
      rw [Cursor.advance, Cursor.upcoming, hrest]
      exact hdot
    simp only [hpoint] at e₂
    cases e₂

instance (name : Token) : Spells (.found kind limits) [] (declaredRegister kind name) := by
  unfold declaredRegister
  refine .andThen fun ⟨i, v⟩ => ?_
  dsimp only
  split
  · infer_instance
  refine .andThen fun bracket => ?_
  split <;> infer_instance

instance (first : Token) : Spells (.found kind limits) [first] (sourceRegister kind limits first) := by
  unfold sourceRegister
  split
  case h_4 hword =>
    split
    case h_1 htext | h_2 htext =>
      refine binding_spells hword fun c b d hc e => ?_
      subst hc
      exact .input hword (by simp [htext]) e
    case h_3 htext | h_4 htext =>
      refine binding_spells hword fun c b d hc e => ?_
      subst hc
      exact .param hword (by simp [htext]) e
    case h_5 => infer_instance
    case h_6 =>
      refine .behind_of_not_isRoot fun h => ?_
      obtain h | h | h | h | h := h.text_eq <;> contradiction
  case h_5 => infer_instance
  all_goals exact .behind_of_kind (by simp [*])

instance (bare negate : Bool) (start : Token) :
    Spells (.found kind limits) [start] (unsignedSource kind limits bare negate start) := by
  unfold unsignedSource
  infer_instance

instance (first : Token) (bare : Bool) :
    Spells (.found kind limits) [first] (source kind limits first bare) := by
  rw [source_eq]
  split
  · have : Spells (.found kind limits) [] (liftM Scan.next >>= unsignedSource kind limits bare true) :=
      .next fun _ => inferInstance
    exact .behind_of_kind (by simp [*])
  · have : Spells (.found kind limits) [] (liftM Scan.next >>= unsignedSource kind limits bare false) :=
      .next fun _ => inferInstance
    exact .behind_of_kind (by simp [*])
  · infer_instance

instance (first : Token) :
    Spells (.found kind limits) [first] (destinationVariable kind limits first) := by
  unfold destinationVariable
  dsimp only
  split
  · infer_instance
  rename_i hfirst
  split
  case h_5 hresult =>
    have hword : first.kind = .identifier := by simpa using hfirst
    refine binding_spells hword fun c b d hc e => ?_
    subst hc
    exact .output hword hresult e
  case h_6 =>
    have hroot : ¬ first.IsRoot := fun h => by
      obtain h | h | h | h | h := h.text_eq <;> contradiction
    exact .behind_of_not_isRoot hroot
  all_goals infer_instance

instance (first : Token) (opcode : Opcode) :
    Spells (.found kind limits) [first] (destination kind limits first opcode) := by
  unfold destination
  refine .andThen fun ⟨var, variableKind⟩ => ?_
  dsimp only
  have hwrite : Spells (.found kind limits) [] (edit (·.write variableKind) first.offset) :=
    edit_spells fun d d' h => by rw [(Draft.afterWrite_of_write h).1]
  infer_instance

instance : Spells (.found kind limits) [] (texture limits) := by
  unfold texture
  refine .word (fun name => ?_) fun name hroot p t q e => ?_
  · dsimp only
    split
    · infer_instance
    refine .andThen fun n => ?_
    split
    · infer_instance
    refine .andThen fun _ => .word (fun shape => ?_) fun shape hroot p t q e => ?_
    · split
      · infer_instance
      · have (t : TextureOperand) : Spells (.found kind limits) [] (edit (·.sample t) shape.offset) :=
          edit_spells fun d d' h => by rw [(Draft.samplers_of_sample h).1]
        infer_instance
    · obtain h | h | h | h | h := hroot.text_eq <;> simp only [h] at e <;> cases e
  · have hne : name.text ≠ "texture" := fun h => absurd (h ▸ hroot.2) (by decide)
    dsimp only at e
    rw [if_pos (by simpa using hne)] at e
    cases e

/-! ## Instructions -/

instance (opcode : Opcode) : Spells (.found kind limits) [] (operand kind limits opcode) := by
  unfold operand
  refine .next fun first => .andThen fun s => ?_
  split <;> infer_instance

instance (opcode : Opcode) (n : Nat) :
    Spells (.found kind limits) [] (moreOperands kind limits opcode n) := by
  induction n with
  | zero =>
    unfold moreOperands
    infer_instance
  | succ n ih =>
    unfold moreOperands
    infer_instance

instance (opcode : Opcode) (n : Nat) :
    Spells (.found kind limits) [] (operands kind limits opcode n) := by
  cases n <;> unfold operands <;> infer_instance

instance (opcode : Opcode) : Spells (.found kind limits) [] (destination? kind limits opcode) := by
  unfold destination?
  split
  · infer_instance
  · exact .next fun first => inferInstance

instance (opcode : Opcode) : Spells (.found kind limits) [] (texture? limits opcode) := by
  unfold texture?
  infer_instance

instance (opcode : Opcode) : Spells (.found kind limits) [] (extended? kind opcode) := by
  unfold extended?
  infer_instance

instance (word : Token) (opcode : Opcode) (saturate : Bool) :
    Spells (.found kind limits) [] (instructionParts kind limits word opcode saturate) := by
  unfold instructionParts
  infer_instance

instance (i : Instruction) : Spells (.found kind limits) []
    (modify fun p => { p with draft := p.draft.push i } : Parse Unit) :=
  .of_still fun p _ _ e => by
    cases e
    rfl

instance (word : Token) : Spells (.found kind limits) [] (instruction kind limits word) := by
  rw [instruction_eq]
  split
  · infer_instance
  · refine .andThen fun d => ?_
    dsimp only
    infer_instance

/-! ## Declarations -/

instance : Spells (.spelled kind limits) [] (attrib kind limits) := by
  unfold attrib
  dsimp only
  exact .of_word fun name => inferInstance

instance : Spells (.spelled kind limits) [] (output kind limits) := by
  unfold output
  dsimp only
  exact .of_word fun name => inferInstance

instance (name : Token) : SpellsName kind limits name (paramArray limits name) := by
  unfold paramArray
  dsimp only
  refine .andThen fun size => .andThen fun _ => .andThen fun _ => .andThen fun items => .andThen fun _ => ?_
  split <;> infer_instance

instance : Spells (.spelled kind limits) [] (param limits) := by
  unfold param
  exact .of_word fun name => inferInstance

instance (k : VariableKind) : Spells (.spelled kind limits) [] (registerRound limits k) := by
  unfold registerRound
  exact .of_word fun name => inferInstance

theorem registersWithin_spells (k : VariableKind) (bound : Nat) :
    Spells (.spelled kind limits) [] (registersWithin limits k bound) := by
  induction bound with
  | zero =>
    unfold registersWithin
    infer_instance
  | succ bound ih =>
    rw [registersWithin_succ]
    refine .andThen fun t => ?_
    split <;> infer_instance

instance (k : VariableKind) : Spells (.spelled kind limits) [] (registers limits k) where
  moves e := IsLocal.moves e
  spells e hopened := (registersWithin_spells k _).spells e hopened

instance : Spells (.spelled kind limits) [] secondName :=
  .of_same fun _ _ _ e => secondName_vars e

instance (start : Token) : Spells (.spelled kind limits) [] (option kind start) :=
  .of_same fun _ _ _ e => (option_vars e).1

/-! ## Statements -/

/-- **All variables of a statement are spelled by its tokens, in their order.** -/
instance (word : Token) : Spells (.spelled kind limits) [] (openedBy kind limits word) := by
  have : Spells (.spelled kind limits) [] (instruction kind limits word) := .of_found
  unfold openedBy
  dsimp only
  split <;> infer_instance

end ShaderAssembly.Parse
