import ShaderAssembly.ProgramReader
import ShaderAssembly.Proofs.Comparison.Parse
import ShaderAssembly.Proofs.Comparison.Scan
import ShaderAssembly.Proofs.Locality.Statement
/-!
# Statements side by side

* operands, instructions and declarations read the same from texts that are alike;
* `Parse.instruction_follows`, `Parse.registers_follows`, `Parse.param_follows`: the statements that
  look at limits;
* **`Parse.statementHere_follows`**: every statement does.
-/

namespace ShaderAssembly.Parse

variable {Γ : Comparison} (kind : ProgramKind)

/-! ## Sources -/

theorem relativeOffset_follows : Scan.Follows Γ relativeOffset relativeOffset Eq := by
  refine Scan.peek_follows.bind fun sign sign' h => ?_
  rw [h.kind]
  split
  · exact .of_eq _
  refine Scan.next_follows.bind fun _ _ _ => (Scan.integer_follows _).bind fun n n' hn => ?_
  rw [← hn.1]
  exact .check rfl hn.2 (.of_eq _)

theorem relativeIndex_follows (array : Nat) {name name' : Token} (h : Γ.Alike name name') :
    Follows Γ (relativeIndex kind array name) (relativeIndex kind array name') Eq := by
  unfold relativeIndex
  refine .check rfl h.place ((resolve_follows h).bind fun (addr, v) (addr', v') hv => ?_)
  obtain ⟨rfl, hkind, -⟩ : addr' = addr ∧ _ := hv
  dsimp only at hkind ⊢
  rw [hkind, h.text]
  refine .check rfl h.place (.scanEq (Scan.expect_follows _ _) fun _ => ?_)
  refine .scan (Scan.word_follows _) fun component component' hc => ?_
  rw [hc.text]
  exact .check rfl hc.place (.scanEq relativeOffset_follows fun _ => .of_eq _)

theorem elementOf_follows (array length : Nat) :
    Follows Γ (elementOf kind array length) (elementOf kind array length) Eq := by
  refine .scan Scan.next_follows fun _ _ _ => .scan Scan.next_follows fun t t' h => ?_
  have close (r : Register) : Follows Γ (do
      Scan.expect .rightBracket "']'"
      return r) (do
      Scan.expect .rightBracket "']'"
      return r) Eq := .scanEq (Scan.expect_follows _ _) fun _ => .of_eq _
  rw [h.kind]
  split
  · split
    · exact (Follows.of_refuse rfl h.place).bindEq close
    · exact close _
  · exact (relativeIndex_follows kind array h).bindEq close
  · exact (Follows.of_unexpected h).bindEq close

theorem declaredRegister_follows {name name' : Token} (h : Γ.Alike name name') :
    Follows Γ (declaredRegister kind name) (declaredRegister kind name') Eq := by
  refine (resolve_follows h).bind fun (i, v) (i', v') hv => ?_
  obtain ⟨rfl, hkind, hname⟩ : i' = i ∧ _ := hv
  dsimp only at hkind hname ⊢
  rw [hkind, hname]
  refine .check rfl h.place (.scan Scan.peek_follows fun t t' ht => ?_)
  rw [ht.kind]
  split
  · split
    · exact elementOf_follows kind _ _
    · exact .of_refuse rfl h.place
  · split
    · exact .of_refuse rfl h.place
    · exact .of_eq _

theorem sourceRegister_follows {first first' : Token} (h : Γ.Alike first first') :
    Follows Γ (sourceRegister kind Γ.limits first) (sourceRegister kind Γ.limits' first') Eq := by
  unfold sourceRegister
  rw [h.kind, h.text]
  split
  case h_1 => exact .scanEq Scan.vector_follows fun _ => .of_eq _
  case h_2 | h_3 => exact .scanEq (Scan.number_follows h) fun _ => .of_eq _
  case h_4 =>
    split
    case h_1 | h_2 =>
      refine .scanEq (Scan.inputBinding_follows kind h) fun b => ?_
      exact (implicit_follows _ h.place).bindEq fun _ => .of_eq _
    case h_3 | h_4 =>
      refine .scanEq (Scan.singleParam_follows h) fun b => ?_
      exact (implicit_follows _ h.place).bindEq fun _ => .of_eq _
    case h_5 => exact .of_refuse rfl h.place
    case h_6 => exact declaredRegister_follows kind h
  case h_5 => exact .of_unexpected h

theorem unsignedSource_follows (bare negate : Bool) {start start' : Token}
    (h : Γ.Alike start start') :
    Follows Γ (unsignedSource kind Γ.limits bare negate start)
      (unsignedSource kind Γ.limits' bare negate start') Eq := by
  refine (sourceRegister_follows kind h).bindEq fun register => ?_
  dsimp only
  split
  · exact .of_eq _
  · exact .scanEq (Scan.swizzle_follows kind) fun _ => .of_eq _

theorem source_follows {first first' : Token} (h : Γ.Alike first first') (bare : Bool) :
    Follows Γ (source kind Γ.limits first bare) (source kind Γ.limits' first' bare) Eq := by
  rw [source_eq, source_eq, h.kind]
  split
  · exact .scan Scan.next_follows fun _ _ => unsignedSource_follows kind bare true
  · exact .scan Scan.next_follows fun _ _ => unsignedSource_follows kind bare false
  · exact unsignedSource_follows kind bare false h

/-! ## Destinations -/

theorem destinationVariable_follows {first first' : Token} (h : Γ.Alike first first') :
    Follows Γ (destinationVariable kind Γ.limits first)
      (destinationVariable kind Γ.limits' first') Eq := by
  unfold destinationVariable
  rw [h.kind, h.text]
  refine .checkToken h ?_
  split
  case h_5 =>
    refine .scanEq (Scan.outputBinding_follows kind) fun b => ?_
    exact (implicit_follows _ h.place).bindEq fun _ => .of_eq _
  case h_6 =>
    refine (resolve_follows h).bind fun found found' hv => ?_
    obtain ⟨i, v⟩ := found
    obtain ⟨i', v'⟩ := found'
    obtain ⟨rfl, hkind, hname⟩ : i' = i ∧ _ := hv
    dsimp only at hkind hname ⊢
    rw [hkind, hname]
    refine .check rfl h.place (.scan Scan.peek_follows fun t t' ht => ?_)
    rw [ht.kind]
    exact .check rfl h.place (.of_eq _)
  all_goals exact .of_refuse rfl h.place

theorem destination_follows {first first' : Token} (h : Γ.Alike first first') (opcode : Opcode) :
    Follows Γ (destination kind Γ.limits first opcode)
      (destination kind Γ.limits' first' opcode) Eq := by
  refine (destinationVariable_follows kind h).bindEq fun written => ?_
  obtain ⟨var, variableKind⟩ := written
  dsimp only
  refine .check rfl h.place (.check rfl h.place (.scanEq (Scan.mask_follows kind) fun mask => ?_))
  refine .check rfl h.place ?_
  exact (Follows.of_edit (fun _ _ hd => hd.write variableKind) h.place).bindEq fun _ => .of_eq _

/-! ## Textures -/

theorem texture_follows : Follows Γ (texture Γ.limits) (texture Γ.limits') Eq := by
  refine .scan (Scan.word_follows _) fun name name' h => ?_
  rw [h.text]
  refine .checkToken h (.scan Scan.index?_follows fun n n' hn => ?_)
  have hunit : n'.map (·.value) = n.map (·.value) := by
    cases hn with
    | none => rfl
    | some hn => exact congrArg some hn.1.symm
  rw [hunit]
  have hle := Γ.le.maxTextureUnits
  refine .guard (Nat.le_trans hle) (fun e hp => by rw [← e]; exact ⟨hp, rfl⟩) h.place ?_
  refine .scanEq (Scan.expect_follows _ _) fun _ => ?_
  refine .scan (Scan.word_follows _) fun shape shape' hs => ?_
  rw [hs.text]
  split
  · exact .of_unexpected hs
  · exact (Follows.of_edit (fun _ _ hd => hd.sample _) hs.place).bindEq fun _ => .of_eq _

/-! ## Instructions -/

theorem operand_follows (opcode : Opcode) :
    Follows Γ (operand kind Γ.limits opcode) (operand kind Γ.limits' opcode) Eq := by
  refine .scan Scan.next_follows fun first first' h => ?_
  refine (source_follows kind h _).bindEq fun s => ?_
  split
  · exact .of_refuse rfl h.place
  · exact .of_eq _

theorem moreOperands_follows (opcode : Opcode) (n : Nat) :
    Follows Γ (moreOperands kind Γ.limits opcode n) (moreOperands kind Γ.limits' opcode n) Eq := by
  induction n with
  | zero => exact .of_eq _
  | succ n ih =>
    refine .scanEq (Scan.expect_follows _ _) fun _ => ?_
    exact (operand_follows kind opcode).bindEq fun _ => ih.bindEq fun _ => .of_eq _

theorem operands_follows (opcode : Opcode) (n : Nat) :
    Follows Γ (operands kind Γ.limits opcode n) (operands kind Γ.limits' opcode n) Eq := by
  cases n with
  | zero => exact .of_eq _
  | succ n =>
    refine (operand_follows kind opcode).bindEq fun _ => ?_
    exact (moreOperands_follows kind opcode n).bindEq fun _ => .of_eq _

theorem destination?_follows (opcode : Opcode) :
    Follows Γ (destination? kind Γ.limits opcode) (destination? kind Γ.limits' opcode) Eq := by
  unfold destination?
  split
  · exact .of_eq _
  · refine .scan Scan.next_follows fun first first' h => ?_
    refine (destination_follows kind h opcode).bindEq fun d => ?_
    exact .scanEq (Scan.expect_follows _ _) fun _ => .of_eq _

theorem texture?_follows (opcode : Opcode) :
    Follows Γ (texture? Γ.limits opcode) (texture? Γ.limits' opcode) Eq := by
  unfold texture?
  split
  · exact .of_eq _
  · exact .scanEq (Scan.expect_follows _ _) fun _ => texture_follows.bindEq fun _ => .of_eq _

theorem extended?_follows (opcode : Opcode) :
    Follows Γ (extended? kind opcode) (extended? kind opcode) Eq := by
  unfold extended?
  split
  · exact .of_eq _
  · exact .scanEq (Scan.extendedSwizzle_follows kind) fun _ => .of_eq _

/-- The second reading has as many instructions, and room for no fewer. -/
theorem instruction_follows {word word' : Token} (h : Γ.Alike word word')
    (hk : word.kind = .identifier) :
    Follows Γ (instruction kind Γ.limits word) (instruction kind Γ.limits' word') Eq := by
  unfold instruction
  rw [h.text]
  split
  · exact .of_refuse rfl h.place
  rename_i opcode saturate _
  refine .draft_bind fun d d' hd => ?_
  rw [← hd.instructions.length_eq]
  have hle := Γ.le.maxInstructions
  refine .guard (Nat.le_trans hle) (fun e hp => by rw [← e]; exact ⟨hp, rfl⟩) h.place ?_
  refine (destination?_follows kind opcode).bindEq fun destination => ?_
  refine (operands_follows kind opcode _).bindEq fun sources => ?_
  refine (extended?_follows kind opcode).bindEq fun extended => ?_
  refine (texture?_follows opcode).bindEq fun texture => ?_
  refine .scanEq (Scan.expect_follows _ _) fun _ p p' hp => ?_
  exact ⟨(), _, rfl, ⟨hp.cursor, hp.draft.push ⟨_, rfl, h.word hk⟩⟩, rfl⟩

/-! ## Declarations -/

theorem option_follows {start start' : Token} (h : Γ.Alike start start') :
    Follows Γ (option kind start) (option kind start') Eq := by
  refine .draft_bind fun d d' hd => ?_
  have hempty {α β : Type} {R : α → β → Prop} {as : List α} {bs : List β}
      (h : List.Forall₂ R as bs) : bs.isEmpty = as.isEmpty := by cases h <;> rfl
  rw [hempty hd.vars, hempty hd.instructions]
  refine .check rfl h.place (.scan (Scan.word_follows _) fun name name' hname => ?_)
  rw [hname.text]
  refine (Follows.of_edit (fun _ _ hd => hd.setOption kind name.text) hname.place).bindEq fun _ => ?_
  exact .of_scan (Scan.expect_follows _ _)

/-- A name that is declared in one reading is declared in the other. -/
theorem declare_follows {name name' : Token} (h : Γ.Alike name name') (k : VariableKind) :
    Follows Γ (edit (·.declare Γ.limits name.text k name.offset) name.offset)
      (edit (·.declare Γ.limits' name'.text k name'.offset) name'.offset) Eq := by
  rw [h.text]
  exact .of_edit (fun _ _ hd => hd.declare name.text k h.place) h.place

theorem registersWithin_follows (k : VariableKind) (bound : Nat) :
    Follows Γ (registersWithin Γ.limits k bound) (registersWithin Γ.limits' k bound) Eq := by
  induction bound with
  | zero => exact .scan Scan.next_follows fun _ _ h => .of_unexpected h
  | succ bound ih =>
    refine .scan (Scan.word_follows _) fun name name' h => (declare_follows h k).bindEq fun _ => ?_
    refine .scan Scan.next_follows fun t t' ht => ?_
    rw [ht.kind]
    split
    · exact ih
    · exact .of_eq _
    · exact .of_unexpected ht

/-- Texts that are alike have as many tokens, so as many rounds are allowed. -/
theorem registers_follows (k : VariableKind) :
    Follows Γ (registers Γ.limits k) (registers Γ.limits' k) Eq := by
  intro p p' hp
  have h := registersWithin_follows k (p.cursor.rest.length + 1) p p' hp
  unfold FollowsAt at h ⊢
  rw [show registers Γ.limits' k p' =
      registersWithin Γ.limits' k (p.cursor.rest.length + 1) p' by
    rw [hp.cursor.rest.length_eq]; rfl]
  exact h

theorem attrib_follows :
    Follows Γ (attrib kind Γ.limits) (attrib kind Γ.limits') Eq := by
  refine .scan (Scan.word_follows _) fun name name' h => ?_
  refine .scanEq (Scan.expect_follows _ _) fun _ => ?_
  refine .scan (Scan.word_follows _) fun root root' hr => ?_
  rw [hr.text]
  refine .checkToken hr (.scanEq (Scan.inputBinding_follows kind hr) fun b => ?_)
  exact .scanEq (Scan.expect_follows _ _) fun _ => declare_follows h _

theorem output_follows :
    Follows Γ (output kind Γ.limits) (output kind Γ.limits') Eq := by
  refine .scan (Scan.word_follows _) fun name name' h => ?_
  refine .scanEq (Scan.expect_follows _ _) fun _ => ?_
  refine .scan (Scan.word_follows _) fun root root' hr => ?_
  rw [hr.text]
  refine .checkToken hr (.scanEq (Scan.outputBinding_follows kind) fun b => ?_)
  exact .scanEq (Scan.expect_follows _ _) fun _ => declare_follows h _

/-- The variable that gets one more name was looked up before the semicolon, and is still there. -/
theorem secondName_follows : Follows Γ secondName secondName Eq := by
  refine .scan (Scan.word_follows _) fun name name' h => ?_
  refine .scanEq (Scan.expect_follows _ _) fun _ => ?_
  refine .scan (Scan.word_follows _) fun target target' ht => ?_
  intro p p' hp
  refine (resolve_followsAt hp ht).bind fun (i, v) q (i', v') q' e hq hv => ?_
  obtain ⟨rfl, hvar, himplicit, -⟩ : i = i' ∧ _ := hv
  refine (Follows.of_scan (Scan.expect_follows .semicolon "';'") q q' hq).bind
    fun _ r _ r' e' hr _ => ?_
  rw [h.text]
  obtain ⟨_, -, rfl⟩ := lift_eq_ok.1 e'
  obtain rfl := eq_of_resolve e
  exact .of_edit hr (hr.draft.nameAlso name.text hvar himplicit) h.place

theorem arraySize_follows :
    Scan.Follows Γ arraySize arraySize (Option.Rel Γ.Located) := by
  refine (Scan.expect_follows _ _).bindEq fun _ => Scan.next_follows.bind fun t t' h => ?_
  rw [h.kind]
  split
  · refine (Scan.expect_follows _ _).bindEq fun _ => .of_pure (.some ⟨rfl, h.place⟩)
  · exact .of_pure .none
  · exact .of_unexpected h

theorem paramArray_follows {name name' : Token} (h : Γ.Alike name name') :
    Follows Γ (paramArray Γ.limits name) (paramArray Γ.limits' name') Eq := by
  refine .scan arraySize_follows fun size size' hsize => ?_
  refine .scanEq (Scan.expect_follows _ _) fun _ => .scanEq (Scan.expect_follows _ _) fun _ => ?_
  refine .scanEq Scan.paramItems_follows fun items => .scanEq (Scan.expect_follows _ _) fun _ => ?_
  rw [h.text]
  have behind : Follows Γ (do
      if items.isEmpty then refuse .emptyArray name.offset
      edit (·.declare Γ.limits name.text (.paramArray items) name.offset) name.offset) (do
      if items.isEmpty then refuse .emptyArray name'.offset
      edit (·.declare Γ.limits' name.text (.paramArray items) name'.offset) name'.offset) Eq :=
    .check rfl h.place (h.text ▸ declare_follows h (.paramArray items))
  cases hsize with
  | none => exact behind
  | some hn =>
    dsimp only
    rw [← hn.1]
    exact .check rfl hn.2 behind

theorem param_follows : Follows Γ (param Γ.limits) (param Γ.limits') Eq := by
  refine .scan (Scan.word_follows _) fun name name' h => ?_
  refine .scan Scan.peek_follows fun t t' ht => ?_
  rw [ht.kind]
  split
  · exact paramArray_follows h
  · refine .scanEq (Scan.expect_follows _ _) fun _ => .scan Scan.next_follows fun _ _ hf => ?_
    refine .scanEq (Scan.singleParam_follows hf) fun item => ?_
    exact .scanEq (Scan.expect_follows _ _) fun _ => declare_follows h _

/-! ## Statements -/

theorem statement_follows {word word' : Token} (h : Γ.Alike word word')
    (hk : word.kind = .identifier) :
    Follows Γ (statement kind Γ.limits word) (statement kind Γ.limits' word') Eq := by
  have goesOn {step step' : Parse Unit} (h : Follows Γ step step' Eq) :
      Follows Γ (do step; return true) (do step'; return true) Eq := h.bindEq fun _ => .of_eq _
  unfold statement
  rw [h.text]
  split
  case h_1 => exact .of_eq _
  case h_2 => exact goesOn (option_follows kind h)
  case h_3 => exact goesOn (registers_follows _)
  case h_4 => exact .check rfl h.place (goesOn (registers_follows _))
  case h_5 => exact goesOn (attrib_follows kind)
  case h_6 => exact goesOn param_follows
  case h_7 => exact goesOn (output_follows kind)
  case h_8 => exact goesOn secondName_follows
  case h_9 => exact goesOn (instruction_follows kind h hk)

/-- From progress that is alike, the same statement is read. -/
theorem statementHere_follows :
    Follows Γ (statementHere kind Γ.limits) (statementHere kind Γ.limits') Eq := by
  intro p p' hp
  have h := hp.cursor.current
  have followed : Follows Γ (statementAt kind Γ.limits p.cursor.current)
      (statementAt kind Γ.limits' p'.cursor.current) Eq := by
    unfold statementAt
    rw [h.kind]
    split
    · exact .of_refuse rfl h.place
    · exact statement_follows kind h ‹_›
    · exact .of_unexpected h
  exact followed p p' hp

end ShaderAssembly.Parse
