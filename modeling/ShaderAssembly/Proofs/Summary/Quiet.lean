import ShaderAssembly.Proofs.Framing.Statement
/-!
# Steps that leave the summary alone

The features of a program, its samplers and its instructions are only changed by options and by
instructions, and there only by the destination, the texture and the end of the instruction.

* `Draft.SameSummary`: drafts that differ in their variables and names at most;
* **`Parse.IsQuiet`**: a step that changes nothing else of the draft;
* one instance for each way of putting steps together, for the sources of an instruction and for
  all declarations.
-/

namespace ShaderAssembly

/-- The two drafts have the same features, samplers and instructions, and the second one the
variables of the first and perhaps more. -/
structure Draft.SameSummary (d d' : Draft) : Prop where
  vars : d.vars <+: d'.vars
  special : d'.special = d.special
  samplers : d'.samplers = d.samplers
  instructions : d'.instructions = d.instructions

theorem Draft.SameSummary.refl (d : Draft) : d.SameSummary d :=
  ⟨List.prefix_refl _, rfl, rfl, rfl⟩

theorem Draft.SameSummary.trans {d d' d'' : Draft} (h : d.SameSummary d') (h' : d'.SameSummary d'') :
    d.SameSummary d'' :=
  ⟨h.vars.trans h'.vars, h'.special.trans h.special, h'.samplers.trans h.samplers,
    h'.instructions.trans h.instructions⟩

theorem Draft.sameSummary_of_declare {limits : Limits} {d d' : Draft} {name : String}
    {kind : VariableKind} {offset : Nat} (h : d.declare limits name kind offset = .ok d') :
    d.SameSummary d' := by
  unfold declare at h
  cases hname : d.checkName name with
  | error cause =>
    rw [hname] at h
    cases h
  | ok u =>
    cases hcount : d.checkCount limits kind with
    | error cause =>
      rw [hname, hcount] at h
      cases h
    | ok u' =>
      rw [hname, hcount] at h
      cases h
      exact ⟨List.prefix_append _ _, rfl, rfl, rfl⟩

theorem Draft.sameSummary_of_nameAlso {d d' : Draft} {name : String} {i : Nat}
    (h : d.nameAlso name i = .ok d') : d.SameSummary d' := by
  unfold nameAlso at h
  cases hname : d.checkName name with
  | error cause =>
    rw [hname] at h
    cases h
  | ok u =>
    rw [hname] at h
    cases h
    exact ⟨List.prefix_refl _, rfl, rfl, rfl⟩

/-- A step that changes variables and names of the draft at most. -/
class Parse.IsQuiet {α : Type} (step : Parse α) : Prop where
  same {p q : Progress} {a : α} : step p = .ok a q → p.draft.SameSummary q.draft

namespace Parse

variable {α β : Type}

/-! ## Single steps -/

instance (a : α) : IsQuiet (pure a : Parse α) where
  same e := by
    cases e
    exact .refl _

instance (cause : Cause) (offset : Nat) : IsQuiet (refuse cause offset : Parse α) where
  same e := nomatch e

/-- Nothing follows a refusal. -/
instance (cause : Cause) (offset : Nat) (f : α → Parse β) :
    IsQuiet (refuse cause offset >>= f) where
  same e := nomatch e

instance (wanted : String) (found : Token) (f : α → Parse β) :
    IsQuiet (liftM (Scan.unexpected wanted found : Scan α) >>= f) where
  same e := nomatch e

instance (scan : Scan α) : IsQuiet (liftM scan : Parse α) where
  same e := by
    obtain ⟨_, _, rfl⟩ := lift_eq_ok.1 e
    exact .refl _

instance (step : Parse α) (f : α → Parse β) [h : IsQuiet step] [hf : ∀ a, IsQuiet (f a)] :
    IsQuiet (step >>= f) where
  same e := by
    obtain ⟨a, p₁, e₁, e₂⟩ := bind_eq_ok.1 e
    exact (h.same e₁).trans ((hf a).same e₂)

instance (p : Prop) [Decidable p] (step step' : Parse α) [IsQuiet step] [IsQuiet step'] :
    IsQuiet (if p then step else step') := by
  split <;> assumption

/-- A step behind another one, where the cases of what follows are still to be told apart. -/
theorem IsQuiet.andThen {step : Parse α} {f : α → Parse β} [IsQuiet step]
    (hf : ∀ a, IsQuiet (f a)) : IsQuiet (step >>= f) := inferInstance

instance : IsQuiet (get : Parse Progress) where
  same e := by
    cases e
    exact .refl _

instance : IsQuiet draft where
  same e := by
    cases e
    exact .refl _

instance (name : Token) : IsQuiet (resolve name) := by
  unfold resolve
  refine .andThen fun d => ?_
  split <;> infer_instance

instance (kind : VariableKind) (start : Nat) : IsQuiet (implicit kind start) where
  same {p q i} e := by
    rw [implicit_eq] at e
    split at e <;> cases e
    · exact .refl _
    · exact ⟨List.prefix_append _ _, rfl, rfl, rfl⟩

theorem isQuiet_edit {change : Draft → Except Cause Draft} {offset : Nat}
    (h : ∀ d d', change d = .ok d' → d.SameSummary d') : IsQuiet (edit change offset) where
  same {p q u} e := by
    rw [edit_eq] at e
    split at e
    · cases e
      exact h _ _ ‹_›
    · cases e

instance (limits : Limits) (name : String) (variableKind : VariableKind) (offset place : Nat) :
    IsQuiet (edit (·.declare limits name variableKind offset) place) :=
  isQuiet_edit fun _ _ h => Draft.sameSummary_of_declare h

instance (name : String) (i place : Nat) : IsQuiet (edit (·.nameAlso name i) place) :=
  isQuiet_edit fun _ _ h => Draft.sameSummary_of_nameAlso h

variable (kind : ProgramKind) (limits : Limits)

/-! ## Sources -/

instance (array : Nat) (name : Token) : IsQuiet (relativeIndex kind array name) := by
  unfold relativeIndex
  infer_instance

instance (array length : Nat) : IsQuiet (elementOf kind array length) := by
  unfold elementOf
  refine .andThen fun _ => .andThen fun t => ?_
  split <;> infer_instance

instance (name : Token) : IsQuiet (declaredRegister kind name) := by
  unfold declaredRegister
  refine .andThen fun ⟨i, v⟩ => ?_
  dsimp only
  split
  · infer_instance
  refine .andThen fun bracket => ?_
  split <;> infer_instance

instance (first : Token) : IsQuiet (sourceRegister kind limits first) := by
  unfold sourceRegister
  split
  case h_4 => split <;> infer_instance
  all_goals infer_instance

instance (bare negate : Bool) (start : Token) :
    IsQuiet (unsignedSource kind limits bare negate start) := by
  unfold unsignedSource
  infer_instance

instance (first : Token) (bare : Bool) : IsQuiet (source kind limits first bare) := by
  rw [source_eq]
  split <;> infer_instance

instance (opcode : Opcode) : IsQuiet (operand kind limits opcode) := by
  unfold operand
  refine .andThen fun first => .andThen fun s => ?_
  split <;> infer_instance

instance (opcode : Opcode) (n : Nat) : IsQuiet (moreOperands kind limits opcode n) := by
  induction n with
  | zero =>
    unfold moreOperands
    infer_instance
  | succ n ih =>
    unfold moreOperands
    infer_instance

instance (opcode : Opcode) (n : Nat) : IsQuiet (operands kind limits opcode n) := by
  cases n <;> unfold operands <;> infer_instance

instance (opcode : Opcode) : IsQuiet (extended? kind opcode) := by
  unfold extended?
  infer_instance

/-- The variable of a destination; what is noted of its write comes later. -/
instance (first : Token) : IsQuiet (destinationVariable kind limits first) := by
  unfold destinationVariable
  dsimp only
  split
  · infer_instance
  split
  case h_6 =>
    refine .andThen fun ⟨i, v⟩ => ?_
    dsimp only
    infer_instance
  all_goals infer_instance

/-! ## Declarations -/

instance (variableKind : VariableKind) (bound : Nat) :
    IsQuiet (registersWithin limits variableKind bound) := by
  induction bound with
  | zero =>
    unfold registersWithin
    infer_instance
  | succ bound ih =>
    unfold registersWithin
    refine .andThen fun name => .andThen fun _ => .andThen fun t => ?_
    split <;> infer_instance

instance (variableKind : VariableKind) : IsQuiet (registers limits variableKind) := by
  unfold registers
  infer_instance

instance : IsQuiet (attrib kind limits) := by
  unfold attrib
  dsimp only
  infer_instance

instance : IsQuiet (output kind limits) := by
  unfold output
  dsimp only
  infer_instance

instance : IsQuiet secondName := by
  unfold secondName
  infer_instance

instance (name : Token) : IsQuiet (paramArray limits name) := by
  unfold paramArray
  dsimp only
  refine .andThen fun size => .andThen fun _ => .andThen fun _ => .andThen fun items => ?_
  refine .andThen fun _ => ?_
  split <;> infer_instance

instance : IsQuiet (param limits) := by
  unfold param
  infer_instance

end Parse

end ShaderAssembly
