import ShaderAssembly.Proofs.Editing.Growth
import ShaderAssembly.Proofs.Naming.Symbols
/-!
# Variables that instructions name

An operand that spells out a binding may add a variable for it, in the middle of an instruction. The
instruction that is read then names the variable.

* `Instruction.places`: the variables that an instruction names;
* `Parse.Covers`: a step whose value accounts for all variables that it adds;
* one rule for each way of putting steps together;
* `Parse.instructionParts_covers`: an instruction names all variables that its operands add;
* `Parse.openedBy_mentions`: a statement that adds implicit variables adds the instruction for them;
* `Draft.Mentioned`: every implicit variable is named by an instruction;
* `ProgramReader.mentioned_of_reachable`: so it is unless a statement was refused;
* **`ProgramReader.symbols_of_reachable`**: names, variables and instructions fit together.
-/

namespace ShaderAssembly

/-- The places of the variables that a register names. -/
def Register.places : Register → List Nat
  | .whole i | .element i _ => [i]
  | .relative i addr _ => [i, addr]
  | .literal _ => []

/-- The places of the variables that an instruction names: those of its destination and of its
sources. -/
def Instruction.places (i : Instruction) : List Nat :=
  (i.destination.map (·.var)).toList ++ i.sources.flatMap (·.register.places)

theorem lt_of_kindAt {vars : List Variable} {i : Nat} {k : VariableKind} (h : kindAt vars i = some k) :
    i < vars.length := by
  obtain ⟨v, hv, -⟩ := Option.map_eq_some_iff.1 h
  exact (List.getElem?_eq_some_iff.1 hv).1

theorem Instruction.WellFormed.lt_of_mem_places {limits : Limits} {m : Model} {i : Instruction}
    (h : i.WellFormed limits m) : ∀ k ∈ i.places, k < m.vars.length := by
  intro k hk
  rw [Instruction.places, List.mem_append, List.mem_flatMap, Option.mem_toList,
    Option.map_eq_some_iff] at hk
  obtain ⟨d, hd, rfl⟩ | ⟨s, hs, hk⟩ := hk
  · obtain ⟨kind, hkind, -⟩ := h.destination d hd
    exact lt_of_kindAt hkind
  · have hregister := (h.sources s hs).register
    cases e : s.register with
    | whole i =>
      rw [e] at hk hregister
      obtain ⟨kind, hkind, -⟩ := hregister
      exact List.mem_singleton.1 hk ▸ lt_of_kindAt hkind
    | element i n =>
      rw [e] at hk hregister
      obtain ⟨items, hitems, -⟩ := hregister
      exact List.mem_singleton.1 hk ▸ lt_of_kindAt hitems
    | relative i addr offset =>
      rw [e] at hk hregister
      obtain ⟨-, ⟨items, hitems⟩, haddr, -⟩ := hregister
      simp only [Register.places, List.mem_cons, List.not_mem_nil, or_false] at hk
      obtain rfl | rfl := hk
      · exact lt_of_kindAt hitems
      · exact lt_of_kindAt haddr
    | literal v =>
      rw [e] at hk
      cases hk

/-- Every implicit variable is named by an instruction. -/
def Draft.Mentioned (d : Draft) : Prop :=
  ∀ i v, d.vars[i]? = some v → v.implicit = true → ∃ j ∈ d.instructions, i ∈ j.places

namespace Parse

variable {α β : Type} {kind : ProgramKind} {limits : Limits} {S : Nat → Prop}

/-- The places behind a step, if they are new or have `S`, are related to its value. -/
def Covers (S : Nat → Prop) (step : Parse α) (R : α → Nat → Prop) : Prop :=
  ∀ p a q, step p = .ok a q → ∀ i < q.draft.vars.length, (p.draft.vars.length ≤ i ∨ S i) → R a i

namespace Covers

/-! ## Putting steps together -/

theorem weaken {step : Parse α} {R R' : α → Nat → Prop} (h : Covers S step R)
    (hR : ∀ a i, R a i → R' a i) : Covers S step R' :=
  fun p a q e i hi hS => hR a i (h p a q e i hi hS)

theorem of_pure {a : α} {R : α → Nat → Prop} (h : ∀ i, S i → R a i) : Covers S (pure a) R := by
  rintro p _ _ ⟨⟩ i hi (hnew | hS)
  · exact absurd hi (Nat.not_lt.2 hnew)
  · exact h i hS

theorem bind {step : Parse α} {f : α → Parse β} {R : α → Nat → Prop} {R' : β → Nat → Prop}
    (h : Covers S step R) (hf : ∀ a, Covers (R a) (f a) R') : Covers S (step >>= f) R' := by
  intro p b q e i hi hS
  obtain ⟨a, p₁, e₁, e₂⟩ := bind_eq_ok.1 e
  by_cases hlength : i < p₁.draft.vars.length
  · exact hf a p₁ b q e₂ i hi (.inr (h p a p₁ e₁ i hlength hS))
  · exact hf a p₁ b q e₂ i hi (.inl (Nat.not_lt.1 hlength))

/-- A step that leaves the variables alone. -/
theorem of_same {step : Parse α} (h : ∀ p a q, step p = .ok a q → q.draft.vars = p.draft.vars) :
    Covers S step fun _ => S := by
  rintro p a q e i hi (hnew | hS)
  · rw [h p a q e] at hi
    exact absurd hi (Nat.not_lt.2 hnew)
  · exact hS

variable (limits) in
/-- A step that edits nothing. -/
theorem of_edits {step : Parse α} (h : ∀ ts, Edits limits ts Eq step) : Covers S step fun _ => S :=
  of_same fun p _ _ e => by
    have hsame := ((h p.cursor.rest).ends (List.suffix_refl _)).ok e
    rw [Relation.reflTransGen_eq_self] at hsame
    rw [hsame]

theorem of_scan {scan : Scan α} : Covers S (liftM scan) fun _ => S :=
  of_same fun _ _ _ e => by
    obtain ⟨c, -, rfl⟩ := lift_eq_ok.1 e
    rfl

theorem skip {scan : Scan α} {f : α → Parse β} {R : β → Nat → Prop} (hf : ∀ a, Covers S (f a) R) :
    Covers S (liftM scan >>= f) R := of_scan.bind hf

theorem of_refuse {cause : Cause} {offset : Nat} {R : α → Nat → Prop} :
    Covers S (refuse cause offset : Parse α) R := by
  intro _ _ _ e
  cases e

theorem of_unexpected {wanted : String} {found : Token} {R : α → Nat → Prop} :
    Covers S (liftM (Scan.unexpected wanted found : Scan α)) R := by
  intro _ _ _ e
  cases e

/-- Nothing follows a refusal. -/
theorem refuse_bind {cause : Cause} {offset : Nat} {f : α → Parse β} {R : β → Nat → Prop} :
    Covers S (refuse cause offset >>= f) R := by
  intro _ _ _ e
  cases e

theorem unexpected_bind {wanted : String} {found : Token} {f : α → Parse β} {R : β → Nat → Prop} :
    Covers S (liftM (Scan.unexpected wanted found : Scan α) >>= f) R := by
  intro _ _ _ e
  cases e

theorem of_edit {change : Draft → Except Cause Draft} {offset : Nat}
    (h : ∀ d d', change d = .ok d' → d'.vars = d.vars) : Covers S (edit change offset) fun _ => S :=
  of_same fun p _ _ e => by
    rw [edit_eq] at e
    split at e
    · rename_i hd
      cases e
      exact h _ _ hd
    · cases e

/-! ## Operands -/

theorem implicit (k : VariableKind) (start : Nat) :
    Covers S (implicit k start) fun i j => S j ∨ j = i := by
  intro p i q e j hj hS
  rw [implicit_eq] at e
  split at e
  · cases e
    exact .inl (hS.resolve_left (Nat.not_le.2 hj))
  · cases e
    rw [Draft.imply, List.length_append, List.length_singleton] at hj
    exact hS.elim (fun hnew => .inr (by omega)) .inl

end Covers

theorem sourceRegister_covers (first : Token) :
    Covers S (sourceRegister kind limits first) fun r i => S i ∨ i ∈ r.places := by
  have binding {γ : Type} {scan : Scan γ} {k : γ → VariableKind} :
      Covers S (liftM scan >>= fun b => do return Register.whole (← implicit (k b) first.offset))
        fun r i => S i ∨ i ∈ r.places :=
    .skip fun b => (Covers.implicit (k b) first.offset).bind fun i => .of_pure fun j hj =>
      hj.imp_right List.mem_singleton.2
  unfold sourceRegister
  split
  case h_1 | h_2 | h_3 => exact .skip fun v => .of_pure fun _ => .inl
  case h_4 =>
    split
    case h_5 => exact .of_refuse
    case h_6 =>
      exact (Covers.of_edits limits fun _ => inferInstance).weaken fun _ _ => .inl
    all_goals exact binding
  case h_5 => exact .of_unexpected

theorem unsignedSource_covers (bare negate : Bool) (start : Token) :
    Covers S (unsignedSource kind limits bare negate start)
      fun s i => S i ∨ i ∈ s.register.places := by
  unfold unsignedSource
  refine (sourceRegister_covers start).bind fun r => ?_
  split
  · exact .of_pure fun _ => id
  · exact .skip fun _ => .of_pure fun _ => id

theorem source_covers (first : Token) (bare : Bool) :
    Covers S (source kind limits first bare) fun s i => S i ∨ i ∈ s.register.places := by
  rw [source_eq]
  split
  · exact .skip fun _ => unsignedSource_covers _ _ _
  · exact .skip fun _ => unsignedSource_covers _ _ _
  · exact unsignedSource_covers _ _ _

theorem operand_covers (opcode : Opcode) :
    Covers S (operand kind limits opcode) fun s i => S i ∨ i ∈ s.register.places := by
  unfold operand
  refine .skip fun first => (source_covers first _).bind fun s => ?_
  split
  · exact .of_refuse
  · exact .of_pure fun _ => id

theorem moreOperands_covers (opcode : Opcode) (n : Nat) : Covers S (moreOperands kind limits opcode n)
    fun ss i => S i ∨ i ∈ ss.flatMap (·.register.places) := by
  induction n generalizing S with
  | zero => exact .of_pure fun _ => .inl
  | succ n ih =>
    unfold moreOperands
    refine .skip fun _ => (operand_covers opcode).bind fun s => ih.bind fun ss => .of_pure fun i hi => ?_
    rw [List.flatMap_cons, List.mem_append, ← or_assoc]
    exact hi

theorem operands_covers (opcode : Opcode) (n : Nat) : Covers S (operands kind limits opcode n)
    fun ss i => S i ∨ i ∈ ss.flatMap (·.register.places) := by
  cases n with
  | zero => exact .of_pure fun _ => .inl
  | succ n =>
    unfold operands
    refine (operand_covers opcode).bind fun s => (moreOperands_covers opcode n).bind fun ss =>
      .of_pure fun i hi => ?_
    rw [List.flatMap_cons, List.mem_append, ← or_assoc]
    exact hi

/-! ## Destinations -/

theorem destinationVariable_covers (first : Token) :
    Covers S (destinationVariable kind limits first) fun d i => S i ∨ i = d.1 := by
  unfold destinationVariable
  dsimp only
  split
  · exact .unexpected_bind
  split
  case h_5 =>
    exact .skip fun b => (Covers.implicit _ _).bind fun i => .of_pure fun j hj => hj
  case h_6 =>
    refine (Covers.of_edits limits fun ts => ?_).weaken fun _ _ => .inl
    refine .andThen ?_
    rintro ⟨i, v⟩
    dsimp only
    infer_instance
  all_goals exact .of_refuse

theorem destination_covers (first : Token) (opcode : Opcode) :
    Covers S (destination kind limits first opcode) fun d i => S i ∨ i = d.var := by
  unfold destination
  refine (destinationVariable_covers first).bind ?_
  rintro ⟨var, k⟩
  dsimp only
  split
  · exact .refuse_bind
  split
  · exact .refuse_bind
  refine .skip fun mask => ?_
  split
  · exact .refuse_bind
  refine (Covers.of_edit fun d d' h => ?_).bind fun _ => .of_pure fun _ => id
  rw [(Draft.afterWrite_of_write h).1]

theorem destination?_covers (opcode : Opcode) : Covers S (destination? kind limits opcode)
    fun d i => S i ∨ i ∈ (d.map (·.var)).toList := by
  unfold destination?
  split
  · exact .of_pure fun _ => .inl
  · exact .skip fun first => (destination_covers first opcode).bind fun d => .skip fun _ =>
      .of_pure fun i hi => hi.imp_right List.mem_singleton.2

/-! ## Instructions -/

theorem texture?_covers (opcode : Opcode) : Covers S (texture? limits opcode) fun _ => S := by
  unfold texture?
  split
  · exact .of_pure fun _ => id
  refine .skip fun _ => Covers.bind (R := fun _ => S) ?_ fun _ => .of_pure fun _ => id
  unfold texture
  refine .skip fun name => ?_
  dsimp only
  split
  · exact .unexpected_bind
  refine .skip fun n => ?_
  split
  · exact .refuse_bind
  refine .skip fun _ => .skip fun shape => ?_
  split
  · exact .of_unexpected
  · refine (Covers.of_edit fun d d' h => ?_).bind fun _ => .of_pure fun _ => id
    rw [(Draft.samplers_of_sample h).1]

/-- **An instruction names every variable that its operands add.** -/
theorem instructionParts_covers (word : Token) (opcode : Opcode) (saturate : Bool) :
    Covers (fun _ => False) (instructionParts kind limits word opcode saturate)
      fun i j => j ∈ i.places := by
  unfold instructionParts
  refine (destination?_covers opcode).bind fun d => (operands_covers opcode _).bind fun ss => ?_
  refine (Covers.of_edits limits fun _ => inferInstance).bind fun e => ?_
  refine (texture?_covers opcode).bind fun t => .skip fun _ => .of_pure fun j hj => ?_
  rw [false_or] at hj
  exact List.mem_append.2 hj

/-! ## Statements -/

theorem openedBy_mentions {word : Token} {p q : Progress}
    (e : openedBy kind limits word p = .ok () q) {i : Nat} {v : Variable}
    (hnew : p.draft.vars.length ≤ i) (hv : q.draft.vars[i]? = some v) (himplicit : v.implicit = true) :
    ∃ j, q.draft.instructions = p.draft.instructions ++ [j] ∧ i ∈ j.places := by
  obtain hedits | hinstruction := openedBy_edits kind limits p.cursor.rest word
  · obtain ⟨-, more, hvars, hmore⟩ :=
      Draft.Declaration.frame_of_many ((hedits.ends (List.suffix_refl _)).ok e)
    rw [hvars, List.getElem?_append_right hnew] at hv
    rw [hmore v (List.mem_of_getElem? hv)] at himplicit
    cases himplicit
  · rw [hinstruction] at e
    obtain ⟨j, q₁, -, -, hparts, rfl⟩ := parts_of_instruction e
    have hnotes : Edits limits p.cursor.rest (Draft.Notes limits p.cursor.rest)
      (instructionParts kind limits word j.opcode j.saturate) := inferInstance
    have hsame := (Draft.Notes.frame_of_many ((hnotes.ends (List.suffix_refl _)).ok hparts)).1
    have hi : i < q₁.draft.vars.length := (List.getElem?_eq_some_iff.1 hv).1
    exact ⟨j, by rw [Draft.push, hsame], instructionParts_covers _ _ _ p j q₁ hparts i hi (.inl hnew)⟩

end Parse

/-- Old variables are named by the old instructions, and new ones by the new instruction. -/
theorem Draft.Mentioned.grows {d d' : Draft} (hd : d.Mentioned) (hg : d.Grows d')
    (hnew : ∀ i v, d.vars.length ≤ i → d'.vars[i]? = some v → v.implicit = true →
      ∃ j ∈ d'.instructions, i ∈ j.places) : d'.Mentioned := by
  intro i v hv himplicit
  by_cases hi : i < d.vars.length
  · obtain ⟨more, hmore⟩ := hg.vars
    rw [← hmore, List.getElem?_append_left hi] at hv
    obtain ⟨j, hj, hplaces⟩ := hd i v hv himplicit
    exact ⟨j, hg.instructions.subset hj, hplaces⟩
  · exact hnew i v (Nat.not_lt.1 hi) hv himplicit

/-! ## Readers -/

namespace ProgramReader

variable {kind : ProgramKind} {limits : Limits} {r : ProgramReader}

theorem mentioned_step (hw : r.progress.draft.WellFormed kind limits)
    (hok : ∀ fault, (r.step kind limits).status ≠ .failed fault) (h : r.progress.draft.Mentioned) :
    (r.step kind limits).progress.draft.Mentioned := by
  have hgrows := (step_keeps hw).1
  by_cases hr : r.status = .running
  case neg => rwa [step_of_stopped hr]
  unfold step at hok hgrows ⊢
  simp only [hr] at hok hgrows ⊢
  cases e : Parse.statementHere kind limits r.progress with
  | error f q => exact absurd (by rw [e]) (hok f)
  | ok goesOn q =>
    rw [e] at hgrows
    obtain ⟨-, hstep⟩ := Parse.statementHere_eq_ok kind limits e
    cases goesOn with
    | false =>
      obtain ⟨-, rfl⟩ := hstep
      exact h
    | true =>
      refine h.grows hgrows fun i v hnew hv himplicit => ?_
      obtain ⟨j, hj, hplaces⟩ := Parse.openedBy_mentions hstep.2 hnew hv himplicit
      exact ⟨j, by simp [hj], hplaces⟩

/-- Every implicit variable is named by an instruction, unless a statement was refused half way. -/
theorem mentioned_of_reachable (h : Reachable kind limits r)
    (hok : ∀ fault, r.status ≠ .failed fault) : r.progress.draft.Mentioned := by
  induction h with
  | start source start => exact fun i v hv => nomatch hv
  | @step r h ih =>
    refine mentioned_step (wellFormed_of_reachable h) hok (ih fun fault hfailed => ?_)
    rw [step_of_stopped (by rw [hfailed]; exact nofun)] at hok
    exact hok fault hfailed
  | advance _ ih => exact ih hok

/-- **Names, variables and instructions fit together in every state.** Names stand for declared
variables and declared variables for their names; own and second names are all names, all of them
different, and none of them is reserved or a mnemonic, saturated or not. Implicit variables have no
name; they stand for bindings, and no two of them for the same one; and unless a statement was
refused, instructions name them all. -/
theorem symbols_of_reachable (h : Reachable kind limits r) :
    let d := r.progress.draft
    (∀ name i, d.symbols.lookup name = some i → ∃ v, d.vars[i]? = some v ∧ v.implicit = false) ∧
    (∀ i v, d.vars[i]? = some v → v.implicit = false → d.symbols.lookup v.name = some i) ∧
    (d.symbols.map (·.1)).Perm (declaredNames d.vars ++ d.secondNames) ∧
    (declaredNames d.vars ++ d.secondNames).Nodup ∧
    (r.current.text = "ALIAS" → (r.step kind limits).status = .running →
      ∃ name ∈ r.progress.cursor.rest.head?,
        (r.step kind limits).progress.draft.secondNames = name.text :: d.secondNames) ∧
    (∀ name ∈ d.symbols.map (·.1), name ∉ reservedWords ∧ ∀ op n, name ≠ Opcode.saturated op n) ∧
    (∀ name i v, d.lookup? name = some (i, v) → v.implicit = false) ∧
    (∀ v ∈ d.vars, v.implicit = true → (∃ b, v.kind = .input b) ∨
      (∃ b, v.kind = .param b ∧ ∀ c, b ≠ .constant c) ∨ ∃ b, v.kind = .output b) ∧
    d.vars.Pairwise (fun v w => v.implicit = true → w.implicit = true → v.kind ≠ w.kind) ∧
    ((∀ fault, r.status ≠ .failed fault) → d.Mentioned) := by
  have hd := wellNamed_of_reachable h
  refine ⟨hd.lookup, hd.own, hd.names_perm, hd.nodup_names, secondNames_step h, fun name hname => ?_,
    fun name i v hlookup => ?_, fun v hv himplicit => ?_, hd.apart, mentioned_of_reachable h⟩
  · exact notReserved_of_isReserved (hd.free name hname)
  · obtain ⟨hname, hv⟩ := Draft.lookup?_eq_some.1 hlookup
    obtain ⟨w, hw, hdeclared⟩ := hd.lookup name i hname
    rw [hv] at hw
    rwa [Option.some.inj hw]
  · exact VariableKind.isBinding_iff.1 (hd.bindings v hv himplicit)

/-- A program with a second name for a register, and a binding as an operand. -/
def renamed : String := "!!ARBvp1.0\nTEMP a;\nALIAS b = a;\nMOV b, vertex.position;\nEND\n"

theorem symbols_renamed : ∃ r, Reachable .vertex (Limits.ofKind .vertex) r ∧ r.status = .done ∧
    r.progress.draft.symbols = [("b", 0), ("a", 0)] ∧
    (declaredNames r.progress.draft.vars ++ r.progress.draft.secondNames).Nodup ∧
    ∃ v, r.progress.draft.vars[1]? = some v ∧ v.implicit = true ∧
      ∃ j ∈ r.progress.draft.instructions, 1 ∈ j.places := by
  let r := (ofSource renamed 10).runWithin .vertex (Limits.ofKind .vertex) 4
  have hr : Reachable .vertex (Limits.ofKind .vertex) r := reachable_runWithin 4 (.start _ _)
  obtain ⟨hdone, hsymbols, v, hv, himplicit⟩ : r.status = .done ∧
      r.progress.draft.symbols = [("b", 0), ("a", 0)] ∧
      ∃ v ∈ r.progress.draft.vars[1]?, v.implicit = true := by
    unfold r
    rw [renamed, ofSource_ofList]
    decide +kernel
  obtain ⟨-, -, -, hnodup, -, -, -, -, -, hmentioned⟩ := symbols_of_reachable hr
  exact ⟨r, hr, hdone, hsymbols, hnodup, v, hv, himplicit,
    hmentioned (by rw [hdone]; exact nofun) 1 v hv himplicit⟩

end ProgramReader

end ShaderAssembly
