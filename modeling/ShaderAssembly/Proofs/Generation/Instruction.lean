import ShaderAssembly.Proofs.Generation.Binding
/-!
# Instructions of well-formed programs

* `Scope.Covers`: a scope with everything that the instructions of a program may use;
* `register_yields`, `operand_yields`, `writeVariable_yields`: operands are expressions in scope;
* `value_yields`: so is what an instruction computes;
* **`statement_yields`**: every instruction has a line in scope, unless it shifts the level of detail
  of a rectangle.
-/

namespace ShaderAssembly.Glsl

/-! ## What a program may use -/

/-- Whether a variable of a kind is a variable of the shader. -/
def isStored : VariableKind → Bool
  | .temporary | .address | .param _ | .paramArray _ | .output .pointSize => true
  | _ => false

/-- A scope with everything that the instructions of a program may use. -/
structure Scope.Covers (s : Scope) (m : Model) : Prop where
  samplers : ∀ unit target, m.samplers.get? unit = some target → s.names (samplerName unit)
  stored : ∀ i k, kindAt m.vars i = some k → isStored k = true → s.names (variableName m i)
  arrays : ∀ i items, kindAt m.vars i = some (.paramArray items) →
    s.arrays (variableName m i) items.length
  fogCoord : m.kind = .vertex → m.special.writesFogCoord = true → s.names fogCoordName
  depth : m.kind = .fragment → m.special.writesDepth = true → s.names depthName

theorem Scope.all_covers (m : Model) : Scope.all.Covers m :=
  ⟨fun _ _ _ => trivial, fun _ _ _ _ => trivial, fun _ _ _ => trivial, fun _ _ => trivial,
    fun _ _ => trivial⟩

variable {s : Scope} {m : Model} {limits : Limits}

/-! ## Registers -/

/-- The name of a variable of the shader is in scope. -/
theorem variableName_scoped (hm : m.WellFormed limits) (hs : s.Covers m) {i : Nat}
    {k : VariableKind} (hk : kindAt m.vars i = some k) (h : isStored k = true) :
    (Expr.name (variableName m i)).Scoped s :=
  Expr.scoped_generated (variableName_spec hm i) (hs.stored i k hk h)

theorem variableAt_yields {i : Nat} {k : VariableKind} (h : kindAt m.vars i = some k) :
    Yields (variableAt m i) fun v => v.kind = k := by
  obtain ⟨v, hv, rfl⟩ := Option.map_eq_some_iff.1 h
  rw [variableAt, hv]
  exact .of_ok rfl

theorem readVariable_yields (hm : m.WellFormed limits) (hs : s.Covers m) {i : Nat}
    {k : VariableKind} (hk : kindAt m.vars i = some k) (hv : k.isVector = true) :
    Yields (readVariable m i) (Expr.Scoped s) := by
  refine (variableAt_yields hk).bind fun v e => ?_
  rw [e]
  cases k with
  | input b => exact .of_ok (input_scoped b)
  | temporary | param b => exact .of_ok (variableName_scoped hm hs hk rfl)
  | address | paramArray items | output b => cases hv

theorem relativePlace_scoped (hm : m.WellFormed limits) (hs : s.Covers m) {addr : Nat}
    (ha : kindAt m.vars addr = some .address) (offset : Int) :
    (relativePlace m addr offset).Scoped s := by
  have base : (Expr.field (.name (variableName m addr)) "x").Scoped s :=
    Expr.scoped_field (variableName_scoped hm hs ha rfl) (by decide)
  unfold relativePlace
  dsimp only
  split
  · exact base
  split
  · exact ⟨base, trivial⟩
  · exact ⟨base, trivial⟩

theorem relativePlace_head (addr : Nat) (offset : Int) :
    (relativePlace m addr offset).tokens.head? = some (variableName m addr) := by
  unfold relativePlace
  dsimp only
  split
  · rfl
  split
  · rfl
  · rfl

/-- A register of a well-formed program is an expression in scope. -/
theorem register_yields (hm : m.WellFormed limits) (hs : s.Covers m) {r : Register}
    (hr : r.WellFormed m.kind m.vars) : Yields (register m r) (Expr.Scoped s) := by
  cases r with
  | whole i =>
    obtain ⟨k, hk, hv⟩ := hr
    exact readVariable_yields hm hs hk hv
  | element i n =>
    obtain ⟨items, hi, hn⟩ := hr
    exact .of_ok (item_scoped (variableName_spec hm i) (hs.stored i _ hi rfl)
      (hs.arrays i items hi) hn)
  | relative i addr offset =>
    obtain ⟨-, ⟨items, hi⟩, ha, -⟩ := hr
    refine .of_ok ⟨variableName_scoped hm hs hi rfl, relativePlace_scoped hm hs ha offset, ?_⟩
    intro token htoken hnumber
    rw [relativePlace_head] at htoken
    have hname := startsNumber_of_isGenerated (variableName_spec hm addr).2
    rw [Option.some.inj htoken, hnumber] at hname
    cases hname
  | literal v => exact .of_ok (constant_scoped hr)

/-! ## Operands -/

theorem signed_scoped {e : Expr} (negate : Bool) (h : e.Scoped s) : (signed negate e).Scoped s := by
  unfold signed
  split
  · exact h
  · exact h

theorem vectorSource_yields (hm : m.WellFormed limits) (hs : s.Covers m) {src : Source}
    (hr : src.register.WellFormed m.kind m.vars) :
    Yields (vectorSource m src) (Expr.Scoped s) := by
  refine (register_yields hm hs hr).bind fun e he => .of_ok (signed_scoped _ ?_)
  split
  · exact he
  · exact ⟨he, isBuiltIn_components (by simp [Swizzle.toList])⟩

theorem scalarSource_yields (hm : m.WellFormed limits) (hs : s.Covers m) {src : Source}
    (hr : src.register.WellFormed m.kind m.vars) :
    Yields (scalarSource m src) (Expr.Scoped s) :=
  (register_yields hm hs hr).bind fun _ he =>
    .of_ok (signed_scoped _ ⟨he, isBuiltIn_components (by simp)⟩)

/-- There is a source at each place below the number of sources. -/
theorem sourceAt_yields {i : Instruction} (hi : i.WellFormed limits m) {n : Nat}
    (hn : n < i.opcode.shape.sources) :
    Yields (sourceAt i n) fun src => src.WellFormed m.kind m.vars i.opcode := by
  rw [← hi.sources_length] at hn
  rw [sourceAt, List.getElem?_eq_getElem hn]
  exact .of_ok (hi.sources _ (List.getElem_mem hn))

theorem operand_yields (hm : m.WellFormed limits) (hs : s.Covers m) {i : Instruction}
    (hi : i.WellFormed limits m) {n : Nat} (hn : n < i.opcode.shape.sources) :
    Yields (operand m i n) (Expr.Scoped s) := by
  refine (sourceAt_yields hi hn).bind fun src hsrc => ?_
  split
  · exact scalarSource_yields hm hs hsrc.register
  · exact vectorSource_yields hm hs hsrc.register

theorem selection_scoped {base : Expr} (hb : base.Scoped s) (negate : Bool)
    (place : SignedSelection) : (selection negate base place).Scoped s := by
  have signs {e : Expr} (he : e.Scoped s) :
      (if place.negate != negate then Expr.negative e else e).Scoped s := by
    split
    · exact he
    · exact he
  unfold selection
  dsimp only
  split
  · exact Expr.scoped_zero
  · exact signs Expr.scoped_one
  · exact signs ⟨hb, isBuiltIn_components (by simp)⟩

theorem extended_yields (hm : m.WellFormed limits) (hs : s.Covers m) {src : Source}
    (hr : src.register.WellFormed m.kind m.vars) (e : ExtendedSwizzle) :
    Yields (extended m e src) (Expr.Scoped s) :=
  (register_yields hm hs hr).bind fun _ hb => .of_ok (Expr.scoped_vector
    (selection_scoped hb _ _) (selection_scoped hb _ _) (selection_scoped hb _ _)
    (selection_scoped hb _ _))

/-! ## Textures -/

theorem textureOf_yields {i : Instruction} (hi : i.WellFormed limits m)
    (h : i.opcode.isTexture = true) :
    Yields (textureOf i) fun t => i.texture = some t ∧ t.WellFormed limits m.samplers := by
  have hsome := hi.texture_isSome
  rw [h] at hsome
  obtain ⟨t, ht⟩ := Option.isSome_iff_exists.1 hsome
  rw [textureOf, ht]
  exact .of_ok ⟨rfl, hi.texture t ht⟩

theorem sampler_scoped (hs : s.Covers m) {t : TextureOperand} (ht : t.WellFormed limits m.samplers) :
    (Expr.name (samplerName t.unit)).Scoped s :=
  Expr.scoped_generated (samplerName_spec t.unit) (hs.samplers _ _ ht.2)

/-! ## Destinations -/

/-- The target of a result is in scope once the feature that it brings with it is noted. -/
theorem output_scoped (hm : m.WellFormed limits) (hs : s.Covers m) {i : Nat} {b : OutputBinding}
    (hk : kindAt m.vars i = some (.output b)) (hn : m.special.Notes (.output b)) :
    (output m i b).Scoped s := by
  have hkind : b.kind = m.kind := hm.kindAt hk
  cases b with
  | position | fragColor => exact Expr.scoped_builtIn (by decide)
  | color face set => exact Expr.scoped_builtIn (by cases face <;> cases set <;> decide)
  | texCoord n => exact Expr.scoped_item (by decide) n
  | fogCoord =>
    exact Expr.scoped_generated ⟨by decide, by decide⟩ (hs.fogCoord hkind.symm hn)
  | pointSize => exact variableName_scoped hm hs hk rfl
  | fragDepth => exact Expr.scoped_generated ⟨by decide, by decide⟩ (hs.depth hkind.symm hn)

/-- The target of a variable that can be written. -/
theorem writeVariable_yields (hm : m.WellFormed limits) (hs : s.Covers m) {i : Nat}
    {k : VariableKind} (hk : kindAt m.vars i = some k) (hw : k.isWritable = true)
    (hn : m.special.Notes k) : Yields (writeVariable m i) (Expr.Scoped s) := by
  refine (variableAt_yields hk).bind fun v e => ?_
  rw [e]
  cases k with
  | temporary => exact .of_ok (variableName_scoped hm hs hk rfl)
  | output b => exact .of_ok (output_scoped hm hs hk hn)
  | address | input b | param b | paramArray items => cases hw

/-! ## Values -/

/-- Whether an instruction shifts the level of detail of a rectangle. -/
def biasesRectangle (i : Instruction) : Bool :=
  i.opcode == .txb && i.texture.any (·.target == .rect)

theorem plainTexture_scoped (hs : s.Covers m) {t : TextureOperand}
    (ht : t.WellFormed limits m.samplers) {e : Expr} (he : e.Scoped s) :
    (plainTexture t e).Scoped s :=
  Expr.scoped_call2 (sampler_scoped hs ht) ⟨he, by cases t.target <;> decide⟩
    (by cases t.target <;> decide)

theorem xyz_scoped {e : Expr} (he : e.Scoped s) : (xyz e).Scoped s :=
  Expr.scoped_field he (by decide)

theorem projectedTexture_scoped (hs : s.Covers m) {t : TextureOperand}
    (ht : t.WellFormed limits m.samplers) {e : Expr} (he : e.Scoped s) :
    (projectedTexture t e).Scoped s := by
  have sampler := sampler_scoped hs ht
  unfold projectedTexture
  dsimp only
  split
  · rename_i h
    rw [h]
    have w : (Expr.field e "w").Scoped s := Expr.scoped_field he (by decide)
    exact Expr.scoped_call2 sampler ⟨xyz_scoped he, w⟩ (by decide)
  · exact Expr.scoped_call2 sampler he (by cases t.target <;> decide)

theorem biasedTexture_yields (hs : s.Covers m) {t : TextureOperand}
    (ht : t.WellFormed limits m.samplers) (hrect : t.target ≠ .rect) {e : Expr}
    (he : e.Scoped s) : Yields (biasedTexture t e) (Expr.Scoped s) := by
  rw [biasedTexture, if_neg hrect]
  exact .of_ok (Expr.scoped_call3 (sampler_scoped hs ht) ⟨he, by cases t.target <;> decide⟩
    (Expr.scoped_field he (by decide)) (by cases t.target <;> decide))

theorem spread_scoped {e : Expr} (he : e.Scoped s) : (spread e).Scoped s :=
  Expr.scoped_call1 he (by decide)

theorem lightingValue_scoped {e : Expr} (he : e.Scoped s) : (lightingValue e).Scoped s := by
  have x : (Expr.field e "x").Scoped s := Expr.scoped_field he (by decide)
  have y : (Expr.field e "y").Scoped s := Expr.scoped_field he (by decide)
  have w : (Expr.field e "w").Scoped s := Expr.scoped_field he (by decide)
  have bound : (Expr.number (Single.ofNat 128)).Scoped s := by
    change (Single.ofNat 128).isFinite = true
    decide
  have lower : (Expr.number (Single.ofNat 128).negate).Scoped s := by
    change (Single.ofNat 128).negate.isFinite = true
    decide
  have above {a : Expr} (ha : a.Scoped s) : (Expr.call2 "max" a .zero).Scoped s :=
    Expr.scoped_call2 ha Expr.scoped_zero (by decide)
  refine Expr.scoped_vector Expr.scoped_one (above x) ?_ Expr.scoped_one
  refine ⟨⟨x, Expr.scoped_zero⟩, ?_, Expr.scoped_zero⟩
  exact Expr.scoped_call2 (above y) (Expr.scoped_call3 w lower bound (by decide)) (by decide)

theorem logarithmValue_scoped {e : Expr} (he : e.Scoped s) : (logarithmValue e).Scoped s := by
  have size : (Expr.call1 "abs" e).Scoped s := Expr.scoped_call1 he (by decide)
  have log : (Expr.call1 "log2" (.call1 "abs" e)).Scoped s := Expr.scoped_call1 size (by decide)
  have floor : (Expr.call1 "floor" (.call1 "log2" (.call1 "abs" e))).Scoped s :=
    Expr.scoped_call1 log (by decide)
  exact Expr.scoped_vector floor ⟨size, Expr.scoped_call1 floor (by decide)⟩ log Expr.scoped_one

/-- What an instruction computes is an expression in scope. -/
theorem value_yields (hm : m.WellFormed limits) (hs : s.Covers m) {i : Instruction}
    (hi : i.WellFormed limits m) (hvalue : i.opcode ≠ .arl ∧ i.opcode ≠ .kil)
    (hrect : biasesRectangle i = false) : Yields (value m i) (Expr.Scoped s) := by
  have src (n : Nat) (hn : n < i.opcode.shape.sources) : Yields (operand m i n) (Expr.Scoped s) :=
    operand_yields hm hs hi hn
  unfold value
  dsimp only
  generalize hop : i.opcode = op at src ⊢
  cases op with
  | arl => exact absurd hop hvalue.1
  | kil => exact absurd hop hvalue.2
  | mov => exact src 0 (by decide)
  | abs | flr | frc =>
    exact (src 0 (by decide)).bind fun a ha => .of_ok (Expr.scoped_call1 ha (by decide))
  | cos | ex2 | lg2 | sin =>
    exact (src 0 (by decide)).bind fun a ha =>
      .of_ok (spread_scoped (Expr.scoped_call1 ha (by decide)))
  | add | mul | sub =>
    exact (src 0 (by decide)).bind₂ (src 1 (by decide)) fun a b ha hb => .of_ok ⟨ha, hb⟩
  | max | min =>
    exact (src 0 (by decide)).bind₂ (src 1 (by decide)) fun a b ha hb =>
      .of_ok (Expr.scoped_call2 ha hb (by decide))
  | cmp =>
    refine (src 2 (by decide)).bind₂ (src 1 (by decide)) fun c b hc hb => ?_
    refine (src 0 (by decide)).bind fun a ha => .of_ok ?_
    have negative : (Expr.call2 "lessThan" a .zeroVector).Scoped s :=
      Expr.scoped_call2 ha Expr.scoped_zeroVector (by decide)
    exact Expr.scoped_call3 hc hb (spread_scoped negative) (by decide)
  | dp3 =>
    refine (src 0 (by decide)).bind₂ (src 1 (by decide)) fun a b ha hb => .of_ok ?_
    exact spread_scoped (Expr.scoped_call2 (xyz_scoped ha) (xyz_scoped hb) (by decide))
  | dp4 =>
    exact (src 0 (by decide)).bind₂ (src 1 (by decide)) fun a b ha hb =>
      .of_ok (spread_scoped (Expr.scoped_call2 ha hb (by decide)))
  | dph =>
    refine (src 1 (by decide)).bind₂ (src 0 (by decide)) fun b a hb ha => .of_ok ?_
    refine spread_scoped ⟨?_, Expr.scoped_field hb (by decide)⟩
    exact Expr.scoped_call2 (xyz_scoped ha) (xyz_scoped hb) (by decide)
  | dst =>
    refine (src 0 (by decide)).bind₂ (src 1 (by decide)) fun a b ha hb => .of_ok ?_
    refine Expr.scoped_vector Expr.scoped_one ⟨?_, ?_⟩ ?_ ?_
    · exact Expr.scoped_field ha (by decide)
    · exact Expr.scoped_field hb (by decide)
    · exact Expr.scoped_field ha (by decide)
    · exact Expr.scoped_field hb (by decide)
  | exp =>
    refine (src 0 (by decide)).bind fun a ha => .of_ok ?_
    refine Expr.scoped_vector (Expr.scoped_call1 ?_ (by decide)) ?_ ?_ Expr.scoped_one
    all_goals exact Expr.scoped_call1 ha (by decide)
  | lit => exact (src 0 (by decide)).bind fun a ha => .of_ok (lightingValue_scoped ha)
  | log => exact (src 0 (by decide)).bind fun a ha => .of_ok (logarithmValue_scoped ha)
  | lrp =>
    refine (src 2 (by decide)).bind₂ (src 1 (by decide)) fun c b hc hb => ?_
    refine (src 0 (by decide)).bind fun a ha => .of_ok ?_
    exact Expr.scoped_call3 hc hb ha (by decide)
  | mad =>
    refine (src 0 (by decide)).bind₂ (src 1 (by decide)) fun a b ha hb => ?_
    exact (src 2 (by decide)).bind fun c hc => .of_ok ⟨⟨ha, hb⟩, hc⟩
  | pow =>
    exact (src 0 (by decide)).bind₂ (src 1 (by decide)) fun a b ha hb =>
      .of_ok (spread_scoped (Expr.scoped_call2 ha hb (by decide)))
  | rcp =>
    exact (src 0 (by decide)).bind fun a ha =>
      .of_ok (spread_scoped ⟨Expr.scoped_one, ha⟩)
  | rsq =>
    exact (src 0 (by decide)).bind fun a ha =>
      .of_ok (spread_scoped (Expr.scoped_call1 (Expr.scoped_call1 ha (by decide)) (by decide)))
  | scs =>
    exact (src 0 (by decide)).bind fun a ha =>
      .of_ok (Expr.scoped_vector (Expr.scoped_call1 ha (by decide))
        (Expr.scoped_call1 ha (by decide)) Expr.scoped_zero Expr.scoped_zero)
  | sge | slt =>
    exact (src 0 (by decide)).bind₂ (src 1 (by decide)) fun a b ha hb =>
      .of_ok (spread_scoped (Expr.scoped_call2 ha hb (by decide)))
  | swz =>
    obtain ⟨e, he⟩ := Option.isSome_iff_exists.1 (hi.extended_isSome.trans (by rw [hop]; rfl))
    dsimp only
    rw [he]
    refine (sourceAt_yields hi (by rw [hop]; decide)).bind fun src hsrc => ?_
    exact extended_yields hm hs hsrc.register e
  | xpd =>
    refine (src 0 (by decide)).bind₂ (src 1 (by decide)) fun a b ha hb => .of_ok ?_
    refine Expr.scoped_call2 ?_ Expr.scoped_zero (by decide)
    exact Expr.scoped_call2 (xyz_scoped ha) (xyz_scoped hb) (by decide)
  | tex =>
    refine (textureOf_yields hi (by rw [hop]; decide)).bind fun t ht => ?_
    exact (src 0 (by decide)).bind fun a ha => .of_ok (plainTexture_scoped hs ht.2 ha)
  | txb =>
    refine (textureOf_yields hi (by rw [hop]; decide)).bind fun t ht => ?_
    have hne : t.target ≠ .rect := by simpa [biasesRectangle, hop, ht.1] using hrect
    exact (src 0 (by decide)).bind fun a ha => biasedTexture_yields hs ht.2 hne ha
  | txp =>
    refine (textureOf_yields hi (by rw [hop]; decide)).bind fun t ht => ?_
    exact (src 0 (by decide)).bind fun a ha => .of_ok (projectedTexture_scoped hs ht.2 ha)

/-- There is no way to shift the level of detail of a rectangle. -/
theorem value_biasedRectangle (hm : m.WellFormed limits) {i : Instruction}
    (hi : i.WellFormed limits m) (hrect : biasesRectangle i = true) :
    value m i = .error .biasedRectangle := by
  simp only [biasesRectangle, Bool.and_eq_true, beq_iff_eq, Option.any_eq_true] at hrect
  obtain ⟨hop, t, ht, htarget⟩ := hrect
  obtain ⟨a, ha, -⟩ := operand_yields hm (Scope.all_covers m) hi (n := 0) (by rw [hop]; decide)
  simp only [value, hop, textureOf, ht, ha, biasedTexture, htarget, bind, Except.bind, if_pos]

/-! ## Statements -/

theorem destinationOf_yields {i : Instruction} (hi : i.WellFormed limits m)
    (h : i.opcode.shape.hasDestination = true) :
    Yields (destinationOf i) fun d => d.WellFormed m.vars m.special i.opcode := by
  obtain ⟨d, hd⟩ := Option.isSome_iff_exists.1 (hi.destination_isSome.trans h)
  rw [destinationOf, hd]
  exact .of_ok (hi.destination d hd)

theorem components_ne_nil {mask : WriteMask} (h : mask ≠ .none) : mask.components ≠ [] := by
  have hall : ∀ x y z w : Bool, WriteMask.mk x y z w ≠ .none →
      (WriteMask.mk x y z w).components ≠ [] := by decide
  exact hall mask.x mask.y mask.z mask.w h

theorem store_scoped {target e : Expr} {mask : WriteMask} (ht : target.Scoped s) (he : e.Scoped s)
    (hmask : mask ≠ .none) : (store target mask e).Scoped s ∧ (store target mask e).names = [] := by
  unfold store
  split
  · exact ⟨⟨ht, he⟩, rfl⟩
  · have selector : isBuiltIn mask.text = true := isBuiltIn_components (components_ne_nil hmask)
    exact ⟨⟨⟨ht, selector⟩, he, selector⟩, rfl⟩

theorem hasDestination_of_ne_kil {op : Opcode} (h : op ≠ .kil) : op.shape.hasDestination = true := by
  cases op with
  | kil => exact absurd rfl h
  | _ => rfl

/-- The variable and the mask of an ordinary instruction's destination. -/
theorem destination_spec {i : Instruction} (harl : i.opcode ≠ .arl) {d : Destination}
    (hd : d.WellFormed m.vars m.special i.opcode) :
    d.mask ≠ .none ∧
      ∃ k, kindAt m.vars d.var = some k ∧ k.isWritable = true ∧ m.special.Notes k := by
  obtain ⟨k, hk, hn, hw⟩ := hd
  rw [if_neg harl] at hw
  exact ⟨hw.2, k, hk, hw.1, hn⟩

/-- **Every instruction has a line in scope, which declares nothing, unless it shifts the level of
detail of a rectangle.** -/
theorem statement_yields (hm : m.WellFormed limits) (hs : s.Covers m) {i : Instruction}
    (hi : i.WellFormed limits m) (hrect : biasesRectangle i = false) :
    Yields (statement m i) fun l => l.Scoped s ∧ l.names = [] := by
  unfold statement
  split
  · rename_i hop
    refine (sourceAt_yields hi (by rw [hop]; decide)).bind fun src hsrc => ?_
    refine (vectorSource_yields hm hs hsrc.register).bind fun a ha => .of_ok ⟨?_, rfl⟩
    exact Expr.scoped_call1 (Expr.scoped_call2 ha Expr.scoped_zeroVector (by decide)) (by decide)
  · rename_i hop
    refine (destinationOf_yields hi (by rw [hop]; decide)).bind fun d hd => ?_
    obtain ⟨k, hk, -, hw⟩ := hd
    rw [if_pos hop] at hw
    obtain ⟨rfl, -⟩ := hw
    have hkind : ((m.vars[d.var]?).map (·.kind) != some VariableKind.address) = false := by
      rw [show (m.vars[d.var]?).map (·.kind) = _ from hk]
      rfl
    rw [hkind]
    refine (sourceAt_yields hi (by rw [hop]; decide)).bind fun src hsrc => ?_
    refine (scalarSource_yields hm hs hsrc.register).bind fun a ha => .of_ok ⟨?_, rfl⟩
    exact ⟨Expr.scoped_field (variableName_scoped hm hs hk rfl) (by decide),
      Expr.scoped_call1 (Expr.scoped_call1 ha (by decide)) (by decide)⟩
  · rename_i hkil harl
    refine (destinationOf_yields hi (hasDestination_of_ne_kil hkil)).bind fun d hd => ?_
    obtain ⟨hmask, k, hk, hw, hn⟩ := destination_spec harl hd
    refine (writeVariable_yields hm hs hk hw hn).bind fun target htarget => ?_
    refine (value_yields hm hs hi ⟨harl, hkil⟩ hrect).bind fun e he => .of_ok ?_
    refine store_scoped htarget ?_ hmask
    split
    · exact Expr.scoped_call3 he Expr.scoped_zero Expr.scoped_one (by decide)
    · exact he

/-- An instruction that shifts the level of detail of a rectangle has no line. -/
theorem statement_biasedRectangle (hm : m.WellFormed limits) {i : Instruction}
    (hi : i.WellFormed limits m) (hrect : biasesRectangle i = true) :
    statement m i = .error .biasedRectangle := by
  have hop : i.opcode = .txb := by
    simp only [biasesRectangle, Bool.and_eq_true, beq_iff_eq] at hrect
    exact hrect.1
  obtain ⟨d, hd, hwf⟩ := destinationOf_yields hi (by rw [hop]; decide)
  obtain ⟨-, k, hk, hw, hn⟩ := destination_spec (by rw [hop]; decide) hwf
  obtain ⟨target, htarget, -⟩ := writeVariable_yields hm (Scope.all_covers m) hk hw hn
  have hvalue := value_biasedRectangle hm hi hrect
  simp only [statement, hop, hd, htarget, hvalue, bind, Except.bind]

end ShaderAssembly.Glsl
