import ShaderAssembly.Proofs.Parsing.Binding
import ShaderAssembly.Proofs.Parsing.Draft
/-!
# What reading an instruction leaves behind

* `Parse.resolve_keeps`, `Parse.implicit_keeps`: the variable of a name and of a binding;
* `Parse.operand_keeps`, `Parse.destination_keeps`, `Parse.texture_keeps`: operands fit the opcode;
* **`Parse.instruction_keeps`**: an instruction that is accepted is well-formed.
-/

namespace ShaderAssembly.Parse

variable {kind : ProgramKind} {limits : Limits} {d₀ : Draft}

/-! ## Variables -/

theorem resolve_keeps (name : Token) :
    Keeps kind limits d₀ (resolve name) fun r d => kindAt d.vars r.1 = some r.2.kind := by
  refine .draft_bind fun d _ _ => ?_
  split
  · rename_i r h
    refine .of_pure fun d' hg => hg.kindAt ?_
    rw [kindAt, Draft.getElem?_of_lookup? h]
    rfl
  · exact .of_refuse

theorem implicit_keeps {k : VariableKind} (hk : k.WellFormed kind limits) (start : Nat) :
    Keeps kind limits d₀ (implicit k start) fun i d => kindAt d.vars i = some k := by
  intro p _ hw
  cases e : p.draft.implied? k with
  | some i =>
    rw [implicit_eq, e]
    exact ⟨.refl _, hw, Draft.kindAt_of_implied? e⟩
  | none =>
    rw [implicit_eq, e]
    obtain ⟨hg, hw'⟩ := Draft.imply_grows (p.cursor.textFrom start) k start hw hk
    refine ⟨hg, hw', ?_⟩
    simp [Draft.imply, kindAt]

/-! ## Sources -/

theorem relativeOffset_gives : Scan.Gives relativeOffset fun o => -64 ≤ o ∧ o ≤ 63 := by
  refine .skip fun sign => ?_
  split
  · exact .of_pure (by decide)
  refine .skip fun _ => .skip fun n => .guard fun h => .of_pure ?_
  simp only [Bool.or_eq_true, decide_eq_true_eq, not_or] at h
  omega

theorem relativeIndex_keeps {array : Nat} {items : List ParamBinding} (name : Token)
    (ha : kindAt d₀.vars array = some (.paramArray items)) :
    Keeps kind limits d₀ (relativeIndex kind array name) fun r d => r.WellFormed kind d.vars := by
  unfold relativeIndex
  refine .guard fun hkind => ?_
  refine (resolve_keeps name).bind fun r d₁ hg₁ hr => .guard fun haddr => ?_
  refine .skip fun _ => .skip fun component => .guard fun _ => ?_
  refine .scan_bind relativeOffset_gives fun offset ho => .of_pure fun d hg => ?_
  rw [show r.2.kind = .address by simpa using haddr] at hr
  exact ⟨by simpa using hkind, ⟨items, hg.kindAt (hg₁.kindAt ha)⟩, hg.kindAt hr, ho⟩

theorem elementOf_keeps {array : Nat} {items : List ParamBinding}
    (ha : kindAt d₀.vars array = some (.paramArray items)) :
    Keeps kind limits d₀ (elementOf kind array items.length)
      fun r d => r.WellFormed kind d.vars := by
  have close {d₁ : Draft} {r : Register} (hr : r.WellFormed kind d₁.vars) :
      Keeps kind limits d₁ (do
        let _ ← (Scan.expect .rightBracket "']'" : Scan Unit)
        return r) fun r d => r.WellFormed kind d.vars :=
    .skip fun _ => .of_pure fun d hg => hr.mono hg.vars
  refine .skip fun _ => .skip fun t => ?_
  dsimp only
  split
  · rename_i n _
    split
    · exact .refuse_bind
    · rename_i hn
      exact .pure_bind (close (r := .element array n) ⟨items, ha, Nat.lt_of_not_le hn⟩)
  · exact (relativeIndex_keeps t ha).bind fun r d₁ _ hr => close hr
  · exact .unexpected_bind

theorem declaredRegister_keeps (name : Token) :
    Keeps kind limits d₀ (declaredRegister kind name) fun r d => r.WellFormed kind d.vars := by
  refine (resolve_keeps name).bind fun r d₁ _ hr => .guard fun hreadable => ?_
  refine .skip fun bracket => ?_
  dsimp only
  split
  · rename_i items hitems
    rw [hitems] at hr
    split
    · exact elementOf_keeps hr
    · exact .of_refuse
  · rename_i harray
    split
    · exact .of_refuse
    · refine .of_pure fun d hg => ⟨r.2.kind, hg.kindAt hr, ?_⟩
      cases hk : r.2.kind with
      | paramArray items => exact absurd hk (harray items)
      | temporary | input b | param b => rfl
      | address | output b => simp [hk, VariableKind.isReadable] at hreadable

theorem sourceRegister_keeps (first : Token) :
    Keeps kind limits d₀ (sourceRegister kind limits first)
      fun r d => r.WellFormed kind d.vars := by
  have whole {k : VariableKind} (hk : k.WellFormed kind limits) (hv : k.isVector = true) :
      Keeps kind limits d₀ (do return Register.whole (← implicit k first.offset))
        fun r d => r.WellFormed kind d.vars :=
    (implicit_keeps hk _).bind fun i d₁ _ hi => .of_pure fun d hg => ⟨k, hg.kindAt hi, hv⟩
  unfold sourceRegister
  split
  · exact .scan_bind Scan.vector_gives fun v hv => .of_pure fun _ _ => hv
  · exact .scan_bind (Scan.number_gives first) fun v hv =>
      .of_pure fun _ _ => Scan.isFinite_replicate hv
  · exact .scan_bind (Scan.number_gives first) fun v hv =>
      .of_pure fun _ _ => Scan.isFinite_replicate hv
  · split
    · exact .scan_bind (Scan.inputBinding_gives kind limits first) fun b hb => whole hb rfl
    · exact .scan_bind (Scan.inputBinding_gives kind limits first) fun b hb => whole hb rfl
    · exact .scan_bind (Scan.singleParam_gives limits first) fun b hb => whole hb rfl
    · exact .scan_bind (Scan.singleParam_gives limits first) fun b hb => whole hb rfl
    · exact .of_refuse
    · exact declaredRegister_keeps first
  · exact .of_unexpected

theorem unsignedSource_keeps (bare negate : Bool) (start : Token) :
    Keeps kind limits d₀ (unsignedSource kind limits bare negate start) fun s d =>
      s.register.WellFormed kind d.vars ∧ (bare = true → s.swizzle = .identity) := by
  refine (sourceRegister_keeps start).bind fun r d₁ _ hr => ?_
  dsimp only
  split
  · exact .of_pure fun d hg => ⟨hr.mono hg.vars, fun _ => rfl⟩
  · rename_i hbare
    exact .skip fun _ => .of_pure fun d hg => ⟨hr.mono hg.vars, fun h => absurd h hbare⟩

theorem source_keeps (first : Token) (bare : Bool) :
    Keeps kind limits d₀ (source kind limits first bare) fun s d =>
      s.register.WellFormed kind d.vars ∧ (bare = true → s.swizzle = .identity) := by
  rw [source_eq]
  split
  · exact .skip fun t => unsignedSource_keeps bare true t
  · exact .skip fun t => unsignedSource_keeps bare false t
  · exact unsignedSource_keeps bare false first

theorem operand_keeps (opcode : Opcode) :
    Keeps kind limits d₀ (operand kind limits opcode)
      fun s d => s.WellFormed kind d.vars opcode := by
  refine .skip fun first => (source_keeps first _).bind fun s d₁ _ hs => ?_
  split
  · exact .of_refuse
  · rename_i hdirect
    refine .of_pure fun d hg => ⟨hs.1.mono hg.vars, ?_, fun h => hs.2 (by simp [h])⟩
    intro ho array addr offset hr
    exact hdirect array addr offset ho hr

theorem cons_keeps {opcode : Opcode} {rest : Parse (List Source)} {n : Nat}
    (h : ∀ d₁, Keeps kind limits d₁ rest fun ss d =>
      ss.length = n ∧ ∀ s ∈ ss, s.WellFormed kind d.vars opcode) :
    Keeps kind limits d₀ (do
      let s ← operand kind limits opcode
      return s :: (← rest)) fun ss d =>
        ss.length = n + 1 ∧ ∀ s ∈ ss, s.WellFormed kind d.vars opcode := by
  refine (operand_keeps opcode).bind fun s d₁ _ hs => (h d₁).bind fun ss d₂ hg₂ hss => ?_
  refine .of_pure fun d hg => ⟨by rw [List.length_cons, hss.1], ?_⟩
  intro t ht
  rcases List.mem_cons.1 ht with rfl | ht
  · exact hs.mono (hg₂.trans hg).vars
  · exact (hss.2 t ht).mono hg.vars

theorem moreOperands_keeps (opcode : Opcode) (n : Nat) :
    Keeps kind limits d₀ (moreOperands kind limits opcode n) fun ss d =>
      ss.length = n ∧ ∀ s ∈ ss, s.WellFormed kind d.vars opcode := by
  induction n generalizing d₀ with
  | zero => exact .of_pure fun d _ => ⟨rfl, by simp⟩
  | succ n ih => exact .skip fun _ => cons_keeps fun _ => ih

/-- There are as many sources as asked for, and each fits the opcode. -/
theorem operands_keeps (opcode : Opcode) (n : Nat) :
    Keeps kind limits d₀ (operands kind limits opcode n) fun ss d =>
      ss.length = n ∧ ∀ s ∈ ss, s.WellFormed kind d.vars opcode := by
  cases n with
  | zero => exact .of_pure fun d _ => ⟨rfl, by simp⟩
  | succ n => exact cons_keeps fun _ => moreOperands_keeps opcode n

/-! ## Destinations -/

theorem destinationVariable_keeps (first : Token) :
    Keeps kind limits d₀ (destinationVariable kind limits first) fun r d =>
      kindAt d.vars r.1 = some r.2 ∧ (r.2.isWritable = true ∨ r.2 = .address) := by
  unfold destinationVariable
  refine .guard_token fun _ => ?_
  dsimp only
  split
  · exact .of_refuse
  · exact .of_refuse
  · exact .of_refuse
  · exact .of_refuse
  · refine .scan_bind (Scan.outputBinding_gives kind limits) fun b hb => ?_
    refine (implicit_keeps (k := .output b) hb _).bind fun i d₁ _ hi => ?_
    exact .of_pure fun d hg => ⟨hg.kindAt hi, .inl rfl⟩
  · refine (resolve_keeps first).bind fun r d₁ _ hr => .guard fun hwrite => ?_
    refine .skip fun bracket => .guard fun _ => .of_pure fun d hg => ⟨hg.kindAt hr, ?_⟩
    by_cases hw : r.2.kind.isWritable = true
    · exact .inl hw
    · exact .inr (by simpa [hw] using hwrite)

/-- A destination fits the opcode. -/
theorem destination_keeps (first : Token) (opcode : Opcode) :
    Keeps kind limits d₀ (destination kind limits first opcode)
      fun t d => t.WellFormed d.vars d.special opcode := by
  refine (destinationVariable_keeps first).bind fun r d₁ _ hr => ?_
  obtain ⟨i, k⟩ := r
  obtain ⟨hk, hw⟩ := hr
  dsimp only at hk hw ⊢
  refine .guard fun hother => .guard fun harl => ?_
  refine .scan_bind (Scan.mask_gives kind) fun mask hmask => .guard fun _ => ?_
  refine .bind (.of_edit fun d d' _ hd h => Draft.write_grows hd h) fun _ d₂ hg₂ hnotes => ?_
  refine .of_pure fun d hg => ⟨k, hg.kindAt (hg₂.kindAt hk), hg.notes hnotes, ?_⟩
  by_cases ha : k = .address
  · have ho : opcode = .arl := by simpa [ha] using hother
    simp [ha, ho]
  · have ho : opcode ≠ .arl := by simpa [ha] using harl
    simpa [ha, ho] using ⟨hw.resolve_right ha, hmask⟩

/-! ## Textures -/

theorem texture_keeps :
    Keeps kind limits d₀ (texture limits) fun t d => t.WellFormed limits d.samplers := by
  refine .skip fun name => .guard_token fun _ => ?_
  refine .skip fun index => .guard fun hunit => ?_
  refine .skip fun _ => .skip fun shape => ?_
  split
  · exact .of_unexpected
  · refine .bind (.of_edit fun d d' hg hd h => Draft.sample_grows hd h) fun _ d₁ _ ht => ?_
    exact .of_pure fun d hg => ⟨Nat.lt_of_not_le hunit, hg.samplers _ _ ht⟩

/-! ## Instructions -/

theorem ofWord?_eq_some {text : String} {opcode : Opcode} {saturate : Bool}
    (h : Instruction.ofWord? kind text = some (opcode, saturate)) :
    opcode.isAvailable kind = true ∧ (saturate = true → kind = .fragment ∧ opcode ≠ .kil) := by
  unfold Instruction.ofWord? at h
  split at h
  rename_i mnemonic clamp hword
  have hclamp : clamp = true → kind = .fragment := by grind
  split at h
  · cases h
  split at h
  · rename_i ha
    cases h
    simp only [Bool.and_eq_true, Bool.not_eq_true', Bool.and_eq_false_imp, beq_eq_false_iff_ne] at ha
    exact ⟨ha.1, fun hs => ⟨hclamp hs, ha.2 hs⟩⟩
  · cases h

theorem destination?_keeps (opcode : Opcode) :
    Keeps kind limits d₀ (destination? kind limits opcode) fun selected d =>
      selected.isSome = opcode.shape.hasDestination ∧
        ∀ t ∈ selected, t.WellFormed d.vars d.special opcode := by
  unfold destination?
  split
  · rename_i h
    exact .of_pure fun d _ => ⟨by simpa using h, by simp⟩
  · rename_i h
    refine .skip fun first => (destination_keeps first opcode).bind fun t d₁ _ ht => ?_
    refine .skip fun _ => .of_pure fun d hg => ⟨by simpa using h, ?_⟩
    rintro _ ⟨⟩
    exact ht.mono hg

theorem texture?_keeps (opcode : Opcode) :
    Keeps kind limits d₀ (texture? limits opcode) fun selected d =>
      selected.isSome = opcode.isTexture ∧ ∀ t ∈ selected, t.WellFormed limits d.samplers := by
  unfold texture?
  split
  · rename_i h
    exact .of_pure fun d _ => ⟨by simpa using h, by simp⟩
  · rename_i h
    refine .skip fun _ => texture_keeps.bind fun t d₁ _ ht => .of_pure fun d hg => ?_
    refine ⟨by simpa using h, ?_⟩
    rintro _ ⟨⟩
    exact ⟨ht.1, hg.samplers _ _ ht.2⟩

theorem extended?_keeps (opcode : Opcode) :
    Keeps kind limits d₀ (extended? kind opcode) fun e _ => e.isSome = (opcode == .swz) := by
  unfold extended?
  split
  · rename_i h
    exact .of_pure fun d _ => by simpa using h
  · rename_i h
    exact .skip fun e => .of_pure fun d _ => by simpa using h

/-- **An instruction that is accepted is well-formed.** -/
theorem instruction_keeps (word : Token) :
    Keeps kind limits d₀ (instruction kind limits word) fun _ _ => True := by
  unfold instruction
  split
  · exact .of_refuse
  · rename_i opcode saturate hword
    refine .draft_bind fun d _ _ => .guard fun _ => ?_
    refine (destination?_keeps opcode).bind fun destination d₁ _ hdestination => ?_
    refine (operands_keeps opcode _).bind fun sources d₂ h₁₂ hsources => ?_
    refine (extended?_keeps opcode).bind fun extended d₃ h₂₃ hextended => ?_
    refine (texture?_keeps opcode).bind fun texture d₄ h₃₄ htexture => .skip fun _ => ?_
    intro p h₄ hw
    have h₂ := h₂₃.trans (h₃₄.trans h₄)
    have h₁ := h₁₂.trans h₂
    obtain ⟨havailable, hsaturate⟩ := ofWord?_eq_some hword
    have hi : Instruction.WellFormed limits (p.draft.toModel kind)
        { opcode, saturate, destination, sources, extended, texture, offset := word.offset } :=
      { available := havailable
        saturate := hsaturate
        destination_isSome := hdestination.1
        destination := fun t ht => (hdestination.2 t ht).mono h₁
        sources_length := hsources.1
        sources := fun s hs => (hsources.2 s hs).mono h₂.vars
        extended_isSome := hextended
        texture_isSome := htexture.1
        texture := fun t ht => ⟨(htexture.2 t ht).1, h₄.samplers _ _ (htexture.2 t ht).2⟩ }
    obtain ⟨hg, hd⟩ := Draft.push_grows hw hi
    exact ⟨hg, hd, trivial⟩

end ShaderAssembly.Parse
