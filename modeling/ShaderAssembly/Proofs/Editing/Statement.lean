import ShaderAssembly.Proofs.Editing.Edit
import ShaderAssembly.Proofs.Framing.Statement
/-!
# Statements edit

Whatever a statement does to a draft is a sequence of edits, also when it is refused half way, and a
refusal for the sake of a limit is just for the draft that it leaves behind.

* **`Parse.Edits`**: a step that only edits and whose faults are just;
* one rule for each way of putting steps together;
* `Parse.implicit_edits`, `Parse.edit_edits`: the steps that change a draft;
* **`Parse.statementHere_edits`**: a whole statement.
-/

namespace ShaderAssembly

open Relation (ReflTransGen)

variable {α β : Type} (kind : ProgramKind) (limits : Limits) (ts : List Token)

/-- From `p` a step makes a sequence of edits, and its fault is just for the draft that it leaves
behind. -/
def Parse.EditsFrom (R : Draft → Draft → Prop) (p : Progress) (step : Parse α) : Prop :=
  match step p with
  | .ok _ q => ReflTransGen R p.draft q.draft
  | .error f q => ReflTransGen R p.draft q.draft ∧ (q.draft.Counted → f.IsJust limits ts q.draft)

/-- A step that makes a sequence of edits on any of the tokens `ts`. -/
class Parse.Edits (R : Draft → Draft → Prop) (step : Parse α) : Prop where
  ends {p : Progress} : p.cursor.rest <:+ ts → EditsFrom limits ts R p step

namespace Parse

variable {kind limits ts} {R R' : Draft → Draft → Prop}

/-! ## Putting steps together -/

theorem EditsFrom.ok {step : Parse α} {p q : Progress} {a : α} (h : EditsFrom limits ts R p step)
    (e : step p = .ok a q) : ReflTransGen R p.draft q.draft := by
  rwa [EditsFrom, e] at h

theorem EditsFrom.error {step : Parse α} {p q : Progress} {f : Fault}
    (h : EditsFrom limits ts R p step) (e : step p = .error f q) :
    ReflTransGen R p.draft q.draft ∧ (q.draft.Counted → f.IsJust limits ts q.draft) := by
  rwa [EditsFrom, e] at h

theorem EditsFrom.bind {step : Parse α} {f : α → Parse β} {p : Progress}
    (h : EditsFrom limits ts R p step)
    (hf : ∀ a q, step p = .ok a q → EditsFrom limits ts R q (f a)) :
    EditsFrom limits ts R p (step >>= f) := by
  unfold EditsFrom at h ⊢
  simp only [Bind.bind, EStateM.bind]
  cases e : step p with
  | error g q =>
    rw [e] at h
    exact h
  | ok a q =>
    rw [e] at h
    have h' := hf a q e
    dsimp only at h ⊢
    cases e' : f a q with
    | ok b q' => exact h.trans (h'.ok e')
    | error g q' => exact ⟨h.trans (h'.error e').1, (h'.error e').2⟩

theorem EditsFrom.mono {step : Parse α} {p : Progress} (hR : ∀ d d', R d d' → R' d d')
    (h : EditsFrom limits ts R p step) : EditsFrom limits ts R' p step := by
  unfold EditsFrom at h ⊢
  split
  · rename_i e
    rw [e] at h
    exact ReflTransGen.mono hR _ _ h
  · rename_i e
    rw [e] at h
    exact ⟨ReflTransGen.mono hR _ _ h.1, h.2⟩

theorem Edits.mono {step : Parse α} (h : Edits limits ts R step) (hR : ∀ d d', R d d' → R' d d') :
    Edits limits ts R' step where
  ends hp := (h.ends hp).mono hR

instance (a : α) : Edits limits ts R (pure a) where
  ends _ := .refl

instance (cause : Cause) (offset : Nat) [h : Checked cause.isPlain] :
    Edits limits ts R (refuse cause offset : Parse α) where
  ends _ := ⟨.refl, fun _ => Fault.isJust_of_isPlain h.eq_true⟩

/-- A scan leaves the draft alone. -/
instance (scan : Scan α) [h : scan.BlamesJustly limits ts] :
    Edits limits ts R (liftM scan : Parse α) where
  ends {p} hp := by
    rw [EditsFrom, lift_eq]
    cases e : scan p.cursor with
    | ok a c => exact .refl
    | error f c => exact ⟨.refl, fun _ => h.just hp e _⟩

/-- A step behind another one, where what the first one does matters. -/
theorem Edits.behind {step : Parse α} {f : α → Parse β} [h : Edits limits ts R step]
    (hf : ∀ a p q, p.cursor.rest <:+ ts → step p = .ok a q → EditsFrom limits ts R q (f a)) :
    Edits limits ts R (step >>= f) where
  ends {p} hp := (h.ends hp).bind fun a q e => hf a p q hp e

instance (step : Parse α) (f : α → Parse β) [IsLocal step] [Edits limits ts R step]
    [hf : ∀ a, Edits limits ts R (f a)] : Edits limits ts R (step >>= f) :=
  .behind fun a _ _ hp e => (hf a).ends ((IsLocal.suffix e).trans hp)

/-- A step behind another one, where the cases of what follows are still to be told apart. -/
theorem Edits.andThen {step : Parse α} {f : α → Parse β} [IsLocal step] [Edits limits ts R step]
    (hf : ∀ a, Edits limits ts R (f a)) : Edits limits ts R (step >>= f) := inferInstance

/-- A step behind a scan, where what was scanned matters. -/
theorem Edits.behindScan {scan : Scan α} {f : α → Parse β} [scan.IsLocal] [scan.BlamesJustly limits ts]
    (hf : ∀ a c d, c.rest <:+ ts → scan c = .ok a d → Edits limits ts R (f a)) :
    Edits limits ts R (liftM scan >>= f) :=
  .behind fun a p q hp e => by
    obtain ⟨d, hd, rfl⟩ := lift_eq_ok.1 e
    exact (hf a p.cursor d hp hd).ends ((Scan.IsLocal.suffix hd).trans hp)

/-- Nothing follows a refusal. -/
instance (cause : Cause) (offset : Nat) (f : α → Parse β) [Checked cause.isPlain] :
    Edits limits ts R (refuse cause offset >>= f) :=
  .behind fun _ _ _ _ e => nomatch e

instance (wanted : String) (found : Token) (f : α → Parse β) :
    Edits limits ts R (liftM (Scan.unexpected wanted found : Scan α) >>= f) :=
  .behind fun _ _ _ _ e => nomatch e

instance (c : Prop) [Decidable c] (step step' : Parse α) [Edits limits ts R step]
    [Edits limits ts R step'] : Edits limits ts R (if c then step else step') := by
  split <;> assumption

/-! ## Drafts -/

instance : Edits limits ts R draft where
  ends _ := .refl

instance (name : Token) : Edits limits ts R (resolve name) := by
  unfold resolve
  refine .andThen fun d => ?_
  split <;> infer_instance

/-- A change of the draft is one edit. -/
theorem edit_editsFrom {p : Progress} {change : Draft → Except Cause Draft} {offset : Nat}
    (hok : ∀ d', change p.draft = .ok d' → R p.draft d')
    (herror : ∀ cause, p.draft.Counted → change p.draft = .error cause →
      Fault.IsJust limits ts p.draft ⟨cause, offset⟩) :
    EditsFrom limits ts R p (edit change offset) := by
  rw [EditsFrom, edit_eq]
  cases e : change p.draft with
  | ok d => exact .single (hok _ e)
  | error cause => exact ⟨.refl, fun hd => herror _ hd e⟩

theorem edit_edits {change : Draft → Except Cause Draft} {offset : Nat}
    (hok : ∀ d d', change d = .ok d' → R d d')
    (herror : ∀ d cause, d.Counted → change d = .error cause →
      Fault.IsJust limits ts d ⟨cause, offset⟩) :
    Edits limits ts R (edit change offset) where
  ends _ := edit_editsFrom (hok _) (herror _)

variable (limits ts) in
/-- A binding that an operand spells out is noted unless it has been noted before. -/
theorem implicit_edits (k : VariableKind) (hbinding : k.isBinding = true)
    (hspelled : k.SpelledIn limits ts) (start : Nat) :
    Edits limits ts (Draft.Notes limits ts) (implicit k start) where
  ends {p} _ := by
    rw [EditsFrom, implicit_eq]
    cases e : p.draft.implied? k with
    | some i => exact .refl
    | none => exact .single (.imply _ _ e hbinding hspelled)

instance (k : VariableKind) (offset : Nat) :
    Edits limits ts (Draft.Notes limits ts) (edit (·.write k) offset) :=
  edit_edits (fun _ _ => .write) fun _ _ _ e => Fault.isJust_of_isPlain (Draft.isPlain_of_write e)

/-! ## Operands -/

instance : relativeOffset.BlamesJustly limits ts := by
  unfold relativeOffset
  infer_instance

instance (array : Nat) (name : Token) :
    Edits limits ts R (relativeIndex kind array name) := by
  unfold relativeIndex
  infer_instance

instance (array length : Nat) : Edits limits ts R (elementOf kind array length) := by
  unfold elementOf
  refine .andThen fun _ => .andThen fun t => ?_
  split <;> infer_instance

instance (name : Token) : Edits limits ts R (declaredRegister kind name) := by
  unfold declaredRegister
  refine .andThen fun ⟨i, v⟩ => ?_
  dsimp only
  split
  · infer_instance
  refine .andThen fun bracket => ?_
  split <;> infer_instance

instance (first : Token) :
    Edits limits ts (Draft.Notes limits ts) (sourceRegister kind limits first) := by
  unfold sourceRegister
  split
  case h_4 hfirst =>
    split
    case h_1 | h_2 =>
      refine .behindScan fun b c d hc e => ?_
      have := implicit_edits limits ts (.input b) rfl (Scan.inputBinding_givesAt hc first b d e) first.offset
      infer_instance
    case h_3 | h_4 =>
      refine .behindScan fun b c d hc e => ?_
      have := implicit_edits limits ts (.param b)
        (Scan.singleParam_isBinding hfirst c b d e) trivial first.offset
      infer_instance
    all_goals infer_instance
  all_goals infer_instance

instance (bare negate : Bool) (start : Token) :
    Edits limits ts (Draft.Notes limits ts) (unsignedSource kind limits bare negate start) := by
  unfold unsignedSource
  infer_instance

instance (first : Token) (bare : Bool) :
    Edits limits ts (Draft.Notes limits ts) (source kind limits first bare) := by
  rw [source_eq]
  split <;> infer_instance

instance (first : Token) :
    Edits limits ts (Draft.Notes limits ts) (destinationVariable kind limits first) := by
  unfold destinationVariable
  dsimp only
  split
  · infer_instance
  split
  case h_5 =>
    refine .behindScan fun b c d _ e => ?_
    have := implicit_edits limits ts (.output b) rfl (Scan.outputBinding_spelledIn c b d e) first.offset
    infer_instance
  case h_6 =>
    refine .andThen fun ⟨i, v⟩ => ?_
    dsimp only
    infer_instance
  all_goals infer_instance

instance (first : Token) (opcode : Opcode) :
    Edits limits ts (Draft.Notes limits ts) (destination kind limits first opcode) := by
  unfold destination
  refine .andThen fun ⟨var, variableKind⟩ => ?_
  dsimp only
  infer_instance

/-- The unit that is refused stands behind the word that is blamed. -/
theorem unitAt_of_index? {name : Token} {c₁ c₂ d : Cursor} {n : Option (Located Nat)}
    (hc : c₁.rest <:+ ts) (e : Scan.word "a texture image unit" c₁ = .ok name c₂)
    (hname : name.text = "texture") (e' : Scan.index? c₂ = .ok n d) :
    Token.UnitAt ts name.offset ((n.map (·.value)).getD 0) := by
  have hrest := (Scan.rest_of_word e).1
  refine ⟨name, rfl, hname, ?_⟩
  cases n with
  | none => exact .inl ⟨hc.mem (by simp [hrest]), rfl⟩
  | some n =>
    obtain ⟨left, number, right, h, hleft, hnumber, -⟩ := Scan.rest_of_index (Scan.index?_eq_some.1 e')
    refine .inr ⟨left, number, List.IsInfix.trans ?_ hc.isInfix, hleft, hnumber⟩
    exact ⟨[], right :: d.rest, by rw [hrest, h]; rfl⟩

variable (ts) in
/-- A texture at a unit that there is may be noted. -/
theorem sample_edits {t : TextureOperand} (hunit : t.unit < limits.maxTextureUnits) (offset : Nat) :
    Edits limits ts (Draft.Notes limits ts) (edit (·.sample t) offset) :=
  edit_edits (fun _ _ => .sample hunit) fun _ _ _ e => Fault.isJust_of_isPlain (Draft.isPlain_of_sample e)

instance : Edits limits ts (Draft.Notes limits ts) (texture limits) := by
  unfold texture
  refine .behind fun name p p₁ hp e => ?_
  obtain ⟨c₁, hword, rfl⟩ := lift_eq_ok.1 e
  have hp₁ : c₁.rest <:+ ts := (Scan.IsLocal.suffix hword).trans hp
  dsimp only
  split
  · exact Edits.ends hp₁
  rename_i hname
  have hname : name.text = "texture" := by simpa using hname
  refine .bind (Edits.ends hp₁) fun n p₂ e => ?_
  obtain ⟨c₂, hindex, rfl⟩ := lift_eq_ok.1 e
  have hp₂ : c₂.rest <:+ ts := (Scan.IsLocal.suffix hindex).trans hp₁
  split
  · exact ⟨.refl, fun _ => ⟨rfl, ‹_›, unitAt_of_index? hp hword hname hindex⟩⟩
  rename_i hunit
  refine (Edits.andThen fun _ => .andThen fun shape => ?_ : Edits limits ts _ _).ends hp₂
  split
  · infer_instance
  · rename_i target _
    have := sample_edits ts
      (t := ⟨(n.map (·.value)).getD 0, target⟩) (Nat.lt_of_not_le hunit) shape.offset
    infer_instance

/-! ## Instructions -/

instance (opcode : Opcode) :
    Edits limits ts (Draft.Notes limits ts) (operand kind limits opcode) := by
  unfold operand
  refine .andThen fun first => .andThen fun s => ?_
  split <;> infer_instance

instance (opcode : Opcode) (n : Nat) :
    Edits limits ts (Draft.Notes limits ts) (moreOperands kind limits opcode n) := by
  induction n with
  | zero =>
    unfold moreOperands
    infer_instance
  | succ n ih =>
    unfold moreOperands
    infer_instance

instance (opcode : Opcode) (n : Nat) :
    Edits limits ts (Draft.Notes limits ts) (operands kind limits opcode n) := by
  cases n <;> unfold operands <;> infer_instance

instance (opcode : Opcode) :
    Edits limits ts (Draft.Notes limits ts) (destination? kind limits opcode) := by
  unfold destination?
  infer_instance

instance (opcode : Opcode) : Edits limits ts (Draft.Notes limits ts) (texture? limits opcode) := by
  unfold texture?
  infer_instance

instance (opcode : Opcode) : Edits limits ts R (extended? kind opcode) := by
  unfold extended?
  infer_instance

variable (kind limits) in
/-- The parts of an instruction, from behind its mnemonic up to its semicolon. -/
def instructionParts (word : Token) (opcode : Opcode) (saturate : Bool) : Parse Instruction := do
  let destination ← destination? kind limits opcode
  let sources ← operands kind limits opcode opcode.shape.sources
  let extended ← extended? kind opcode
  let texture ← texture? limits opcode
  Scan.expect .semicolon "';'"
  return { opcode, saturate, destination, sources, extended, texture, offset := word.offset }

instance (word : Token) (opcode : Opcode) (saturate : Bool) :
    Edits limits ts (Draft.Notes limits ts) (instructionParts kind limits word opcode saturate) := by
  unfold instructionParts
  infer_instance

/-- An instruction is read if there is room for it, and then added. -/
theorem instruction_eq (word : Token) : instruction kind limits word =
    match Instruction.ofWord? kind word.text with
    | none => refuse (.unknownInstruction word.text kind) word.offset
    | some (opcode, saturate) => (do
      if limits.maxInstructions ≤ (← draft).instructions.length then
        refuse (.tooManyInstructions limits.maxInstructions) word.offset
      let i ← instructionParts kind limits word opcode saturate
      modify fun p => { p with draft := p.draft.push i }) := by
  unfold instruction instructionParts
  split
  · simp only [*]
  · simp only [*, bind_assoc, pure_bind]

instance (word : Token) :
    Edits limits ts (Draft.Edit kind limits ts) (instruction kind limits word) where
  ends {p} hp := by
    rw [instruction_eq]
    split
    · exact Edits.ends hp
    rename_i opcode saturate _
    refine .bind (Edits.ends hp) fun d p' e => ?_
    cases e
    dsimp only
    split
    · exact ⟨.refl, fun _ => ⟨rfl, ‹_›⟩⟩
    rename_i hroom
    have hparts : Edits limits ts (Draft.Notes limits ts)
      (instructionParts kind limits word opcode saturate) := inferInstance
    refine .bind ((hparts.ends hp).mono fun _ _ => .note) fun i q e => ?_
    have hsame := (Draft.Notes.frame_of_many ((hparts.ends hp).ok e)).1
    exact .single (.push (by rw [hsame]; omega))

/-- An instruction that is accepted adds what its parts make up. -/
theorem parts_of_instruction {word : Token} {p q : Progress} {u : Unit}
    (e : instruction kind limits word p = .ok u q) :
    ∃ i q₁, Instruction.ofWord? kind word.text = some (i.opcode, i.saturate) ∧
      i.offset = word.offset ∧ instructionParts kind limits word i.opcode i.saturate p = .ok i q₁ ∧
      q = { q₁ with draft := q₁.draft.push i } := by
  rw [instruction_eq] at e
  cases hword : Instruction.ofWord? kind word.text with
  | none =>
    rw [hword] at e
    cases e
  | some found =>
    obtain ⟨opcode, saturate⟩ := found
    rw [hword] at e
    obtain ⟨d, p₁, e₁, e⟩ := bind_eq_ok.1 e
    cases e₁
    dsimp only at e
    split at e
    · cases e
    obtain ⟨i, q₁, hparts, e⟩ := bind_eq_ok.1 e
    cases e
    obtain ⟨hopcode, hsaturate, hoffset⟩ :
        i.opcode = opcode ∧ i.saturate = saturate ∧ i.offset = word.offset := by
      unfold instructionParts at hparts
      obtain ⟨_, _, -, e⟩ := bind_eq_ok.1 hparts
      obtain ⟨_, _, -, e⟩ := bind_eq_ok.1 e
      obtain ⟨_, _, -, e⟩ := bind_eq_ok.1 e
      obtain ⟨_, _, -, e⟩ := bind_eq_ok.1 e
      obtain ⟨_, _, -, e⟩ := bind_eq_ok.1 e
      cases e
      exact ⟨rfl, rfl, rfl⟩
    subst hopcode hsaturate
    exact ⟨i, q₁, rfl, hoffset, hparts, rfl⟩

/-- An instruction that is accepted notes what its operands need and adds itself. -/
theorem instruction_eq_ok {word : Token} {p q : Progress} {u : Unit}
    (e : instruction kind limits word p = .ok u q) :
    ∃ i d, Instruction.ofWord? kind word.text = some (i.opcode, i.saturate) ∧
      i.offset = word.offset ∧ ReflTransGen (Draft.Notes limits p.cursor.rest) p.draft d ∧
      q.draft = d.push i := by
  obtain ⟨i, q₁, hword, hoffset, hparts, rfl⟩ := parts_of_instruction e
  have hedits : Edits limits p.cursor.rest (Draft.Notes limits p.cursor.rest)
    (instructionParts kind limits word i.opcode i.saturate) := inferInstance
  exact ⟨i, q₁.draft, hword, hoffset, (hedits.ends (List.suffix_refl _)).ok hparts, rfl⟩

/-! ## Declarations -/

variable (kind limits) in
/-- A declared name is a word of the text, and the variable is as the text has it. -/
theorem declare_edits (k : VariableKind) {name : Token} (hmem : name ∈ ts)
    (hname : name.kind = .identifier) (hspelled : k.SpelledIn limits ts) :
    Edits limits ts (Draft.Declaration kind limits ts)
      (edit (·.declare limits name.text k name.offset) name.offset) :=
  edit_edits (fun _ _ => .declare hmem hname hspelled) fun _ _ hd e => Draft.isJust_of_declare hd e

/-- A step behind a word of the text. -/
theorem Edits.behindWord {wanted : String} {f : Token → Parse β}
    (hf : ∀ name, name ∈ ts → name.kind = .identifier → Edits limits ts R (f name)) :
    Edits limits ts R (liftM (Scan.word wanted) >>= f) :=
  .behindScan fun name c d hc e => by
    obtain ⟨hrest, hkind⟩ := Scan.rest_of_word e
    exact hf name (hc.mem (by simp [hrest])) hkind

instance (start : Token) : Edits limits ts (Draft.Declaration kind limits ts) (option kind start) := by
  unfold option
  refine .andThen fun d => ?_
  dsimp only
  split
  · infer_instance
  · refine .andThen fun name => ?_
    have : Edits limits ts (Draft.Declaration kind limits ts)
        (edit (·.setOption kind name.text) name.offset) :=
      edit_edits (fun _ _ => .option) fun _ _ _ e => Fault.isJust_of_isPlain (Draft.isPlain_of_setOption e)
    infer_instance

theorem registersWithin_edits {k : VariableKind} (hspelled : k.SpelledIn limits ts) (bound : Nat) :
    Edits limits ts (Draft.Declaration kind limits ts) (registersWithin limits k bound) := by
  induction bound with
  | zero =>
    unfold registersWithin
    infer_instance
  | succ bound ih =>
    have round : Edits limits ts (Draft.Declaration kind limits ts) (registerRound limits k) := by
      unfold registerRound
      refine .behindWord fun name hmem hname => ?_
      have := declare_edits kind limits k hmem hname hspelled
      infer_instance
    rw [registersWithin_succ]
    refine .andThen fun t => ?_
    split <;> infer_instance

variable (kind limits ts) in
theorem registers_edits (k : VariableKind) (hspelled : k.SpelledIn limits ts) :
    Edits limits ts (Draft.Declaration kind limits ts) (registers limits k) where
  ends hp := (registersWithin_edits hspelled _).ends hp

instance : Edits limits ts (Draft.Declaration kind limits ts) (attrib kind limits) := by
  unfold attrib
  refine .behindWord fun name hmem hname => .andThen fun _ => .andThen fun root => ?_
  dsimp only
  split
  · infer_instance
  · refine .behindScan fun b c d hc e => ?_
    have := declare_edits kind limits (.input b) hmem hname (Scan.inputBinding_givesAt hc root b d e)
    infer_instance

instance : Edits limits ts (Draft.Declaration kind limits ts) (output kind limits) := by
  unfold output
  refine .behindWord fun name hmem hname => .andThen fun _ => .andThen fun root => ?_
  dsimp only
  split
  · infer_instance
  · refine .behindScan fun b c d hc e => ?_
    have := declare_edits kind limits (.output b) hmem hname (Scan.outputBinding_spelledIn c b d e)
    infer_instance

instance : arraySize.BlamesJustly limits ts := by
  unfold arraySize
  refine .andThen fun _ => .andThen fun t => ?_
  split <;> infer_instance

instance : Edits limits ts (Draft.Declaration kind limits ts) secondName := by
  unfold secondName
  refine .behindWord fun name hmem hname => .andThen fun _ => .andThen fun target => ?_
  refine .behind fun ⟨i, v⟩ p q hp e => ?_
  obtain ⟨hlookup, rfl⟩ := resolve_eq_ok.1 e
  refine .bind (Edits.ends hp) fun _ q e => ?_
  obtain ⟨c, -, rfl⟩ := lift_eq_ok.1 e
  exact edit_editsFrom (fun _ => .nameAlso hmem hname hlookup)
    fun _ _ e => Fault.isJust_of_isPlain (Draft.isPlain_of_nameAlso e)

variable (kind limits) in
theorem paramArray_edits {name : Token} (hmem : name ∈ ts) (hname : name.kind = .identifier) :
    Edits limits ts (Draft.Declaration kind limits ts) (paramArray limits name) := by
  unfold paramArray
  dsimp only
  refine .andThen fun size => .andThen fun _ => .andThen fun _ => .andThen fun items => .andThen fun _ => ?_
  have := declare_edits kind limits (.paramArray items) hmem hname trivial
  split <;> infer_instance

instance : Edits limits ts (Draft.Declaration kind limits ts) (param limits) := by
  unfold param
  refine .behindWord fun name hmem hname => .andThen fun bracket => ?_
  have := paramArray_edits kind limits hmem hname
  have item (b : ParamBinding) :=
    declare_edits kind limits (.param b) hmem hname trivial
  infer_instance

/-! ## Statements -/

variable (kind limits ts) in
/-- The statements but `END` are declarations and instructions. -/
theorem openedBy_edits (word : Token) :
    Edits limits ts (Draft.Declaration kind limits ts) (openedBy kind limits word) ∨
      openedBy kind limits word = instruction kind limits word := by
  have htemporary := registers_edits kind limits ts .temporary trivial
  have haddress := registers_edits kind limits ts .address trivial
  unfold openedBy
  dsimp only
  split
  case h_8 => exact .inr rfl
  all_goals exact .inl inferInstance

instance (word : Token) : Edits limits ts (Draft.Edit kind limits ts) (openedBy kind limits word) := by
  obtain h | h := openedBy_edits kind limits ts word
  · exact h.mono fun _ _ => Draft.Declaration.edit
  · rw [h]
    infer_instance

instance (word : Token) : Edits limits ts (Draft.Edit kind limits ts) (statement kind limits word) := by
  rw [statement_eq]
  split
  · infer_instance
  · exact .behind fun _ _ _ _ _ => .refl

instance (t : Token) : Edits limits ts (Draft.Edit kind limits ts) (statementAt kind limits t) := by
  unfold statementAt
  split <;> infer_instance

variable (kind limits ts) in
/-- **A statement edits**, also one that is refused, and a limit that it meets has been reached. -/
theorem statementHere_edits : Edits limits ts (Draft.Edit kind limits ts) (statementHere kind limits) where
  ends {p} hp := (inferInstance : Edits limits ts _ (statementAt kind limits p.cursor.current)).ends hp

end Parse

end ShaderAssembly
