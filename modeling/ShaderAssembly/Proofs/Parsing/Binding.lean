import ShaderAssembly.Proofs.Parsing.Step
import ShaderAssembly.Statement.Binding
import ShaderAssembly.Statement.Selector
/-!
# What is known of scanned bindings

* constants are finite, and selectors name some component;
* attributes and results are those of the program's kind;
* **`Scan.stateBinding_gives`**, **`Scan.paramItem_gives`**: state vectors and parameters are
  well-formed, also where several are read at once.
-/

namespace ShaderAssembly.Scan

variable (kind : ProgramKind) (limits : Limits)

/-! ## Tokens -/

/-- A word is a token of the class of words. -/
theorem word_gives (wanted : String) : Gives (word wanted) fun t => t.kind = .identifier := by
  refine .skip fun t => .guard fun h => .of_pure ?_
  simpa using h

/-- What passes the check against a limit is below it. -/
theorem below_gives (limit : Nat) (what : String) (n : Located Nat) :
    Gives (below limit what n) fun _ => n.value < limit := by
  unfold below
  split
  · exact .of_refuse
  · rename_i h
    exact .of_pure (Nat.lt_of_not_le h)

/-! ## Constants -/

theorem number_gives (first : Token) : Gives (number first) fun v => v.isFinite = true := by
  unfold number
  split
  · exact .of_unexpected
  · split
    · rename_i h
      exact .of_pure h
    · exact .of_refuse

theorem isFinite_negate (v : Single) : v.negate.isFinite = v.isFinite := by
  cases v <;> rfl

theorem signedNumber_gives (first : Token) :
    Gives (signedNumber first) fun v => v.isFinite = true := by
  unfold signedNumber
  split
  · refine .skip fun t => (number_gives t).bind fun v hv => .of_pure ?_
    rw [isFinite_negate, hv]
  · exact .skip number_gives
  · exact number_gives first

theorem components_gives (room : Nat) :
    Gives (components room) fun vs => ∀ v ∈ vs, v.isFinite = true := by
  induction room with
  | zero => exact .skip fun _ => .of_unexpected
  | succ room ih =>
    refine .skip fun first => (signedNumber_gives first).bind fun v hv => .skip fun t => ?_
    split
    · refine ih.bind fun vs hvs => .of_pure ?_
      simpa using ⟨hv, hvs⟩
    · exact .of_pure (by simpa using hv)
    · exact .of_unexpected

theorem isFinite_ofPrefix {vs : List Single} (h : ∀ v ∈ vs, v.isFinite = true) :
    (Vector4.ofPrefix vs).IsFinite := by
  have item (n : Nat) (d : Single) (hd : d.isFinite = true) : (vs[n]?.getD d).isFinite = true := by
    cases e : vs[n]? with
    | none => exact hd
    | some v => exact h v (List.mem_of_getElem? e)
  intro x hx
  simp only [Vector4.ofPrefix, Vector4.toList, List.mem_cons, List.not_mem_nil, or_false] at hx
  rcases hx with rfl | rfl | rfl | rfl
  · exact item 0 _ rfl
  · exact item 1 _ rfl
  · exact item 2 _ rfl
  · exact item 3 _ (by decide)

/-- A vector in braces is finite. -/
theorem vector_gives : Gives vector Vector4.IsFinite :=
  (components_gives 4).bind fun _ h => .of_pure (isFinite_ofPrefix h)

/-- One finite number in all places is a finite vector. -/
theorem isFinite_replicate {v : Single} (h : v.isFinite = true) :
    (Vector4.replicate v).IsFinite := by
  simpa [Vector4.IsFinite, Vector4.replicate, Vector4.toList] using h

/-! ## Selectors -/

theorem insert_ne_none (m : WriteMask) (c : Component) : m.insert c ≠ .none := by
  cases c <;> simp [WriteMask.insert, WriteMask.none]

theorem ofList_ne_none {cs : List Component} (h : cs ≠ []) : WriteMask.ofList cs ≠ .none := by
  rw [← List.dropLast_concat_getLast h, WriteMask.ofList, List.foldl_append]
  exact insert_ne_none _ _

theorem components?_ne_nil {text : String} {cs : List Component}
    (h : Selector.components? kind text = some cs) : cs ≠ [] := by
  rintro rfl
  simp only [Selector.components?] at h
  split at h
  · cases h
  · rename_i hne
    cases e : text.toList with
    | nil => simp [e] at hne
    | cons c rest =>
      rw [e, List.mapM_cons] at h
      simp [Option.bind_eq_some_iff] at h

theorem selector?_gives :
    Gives (selector? kind) fun selected => ∀ s ∈ selected, s.2 ≠ [] := by
  refine .skip fun point => ?_
  split
  · exact .of_pure (by simp)
  refine .skip fun _ => .skip fun t => ?_
  split
  · rename_i cs h
    refine .of_pure ?_
    simpa using components?_ne_nil kind h
  · exact .of_refuse

/-- A mask names some component. -/
theorem mask_gives : Gives (mask kind) fun m => m ≠ .none := by
  refine (selector?_gives kind).bind fun selected h => ?_
  split
  · exact .of_pure (by decide)
  · rename_i t cs
    have hcs : cs ≠ [] := h (t, cs) rfl
    split
    · rename_i m hm
      unfold Selector.mask? at hm
      split at hm
      · cases hm
        exact .of_pure (ofList_ne_none hcs)
      · cases hm
    · exact .of_refuse

/-! ## Attributes and results -/

theorem kind_ofGenericAttribute {n : Nat} {b : InputBinding}
    (h : InputBinding.ofGenericAttribute? n = some b) : b.kind = .vertex := by
  unfold InputBinding.ofGenericAttribute? at h
  repeat' split at h
  all_goals cases h
  all_goals rfl

/-- An attribute is one of the program's kind. -/
theorem inputBinding_gives (root : Token) :
    Gives (inputBinding kind limits root) fun b => b.kind = kind := by
  unfold inputBinding
  refine .guard fun _ => ?_
  refine .skip fun _ => .skip fun name => ?_
  split
  · exact .of_pure rfl
  · exact .of_pure rfl
  · exact .of_pure rfl
  · exact .skip fun _ => .of_pure rfl
  · exact .skip fun _ => .of_pure rfl
  · refine .skip fun n => ?_
    split
    · rename_i h
      exact .of_pure (kind_ofGenericAttribute h)
    · exact .of_refuse
  · exact .of_pure rfl
  · exact .of_pure rfl
  · exact .skip fun _ => .of_pure rfl
  · exact .skip fun _ => .of_pure rfl
  · exact .of_refuse

/-- A result is one of the program's kind. -/
theorem outputBinding_gives : Gives (outputBinding kind limits) fun b => b.kind = kind := by
  refine .skip fun _ => .skip fun name => ?_
  split
  · exact .of_pure rfl
  · exact .of_pure rfl
  · exact .of_pure rfl
  · exact .skip fun _ => .of_pure rfl
  · exact .skip fun _ => .skip fun _ => .of_pure rfl
  · exact .of_pure rfl
  · exact .of_pure rfl
  · exact .of_refuse

/-! ## State of the fixed pipeline -/

theorem productProperty_gives :
    Gives productProperty fun p => p ≠ .emission ∧ p ≠ .shininess := by
  refine .skip fun name => ?_
  split
  · exact .of_pure (by decide)
  · exact .of_pure (by decide)
  · exact .of_pure (by decide)
  · exact .of_unexpected

theorem lightIndex_gives : Gives lightIndex fun n => n < lightCount :=
  .skip fun n => (below_gives _ _ n).bind fun _ h => .of_pure h

theorem coordUnit_gives (what : String) : Gives (coordUnit limits what) limits.HasCoords := by
  refine .skip fun n => ?_
  split
  · exact .of_pure (.inl rfl)
  · exact (below_gives _ _ _).bind fun _ h => .of_pure (.inr h)

theorem matrixName_gives : Gives (matrixName limits) (MatrixName.WellFormed limits) := by
  refine .skip fun name => ?_
  split
  · refine .skip fun n => ?_
    split
    · exact .of_pure trivial
    · split
      · exact .of_pure trivial
      · exact .of_refuse
  · exact .of_pure trivial
  · exact .of_pure trivial
  · exact (coordUnit_gives limits _).bind fun _ h => .of_pure h
  · exact .of_refuse

theorem matrixRows_gives : Gives matrixRows fun rows => rows.2 < matrixRowCount := by
  refine .skip fun suffix => ?_
  split
  · exact .of_pure (by decide)
  · exact .skip fun rows => (below_gives _ _ _).bind fun _ h => .of_pure h

theorem le_of_mem_span {start stop n : Nat} (h : n ∈ span start stop) : n ≤ stop := by
  rw [span, List.mem_range'_1] at h
  omega

theorem matrixBinding_gives :
    Gives (matrixBinding limits) fun items => ∀ b ∈ items, b.WellFormed limits := by
  refine .skip fun _ => (matrixName_gives limits).bind fun matrix hmatrix => ?_
  refine .skip fun modifier => matrixRows_gives.bind fun rows hrows => .of_pure ?_
  intro b hb
  obtain ⟨row, hrow, rfl⟩ := List.mem_map.1 hb
  exact ⟨hmatrix, Nat.lt_of_le_of_lt (le_of_mem_span hrow) hrows⟩

/-- One vector of the state. -/
theorem of_single {b : StateBinding} (h : b.WellFormed limits) :
    Gives (pure [b]) fun items => ∀ b ∈ items, b.WellFormed limits :=
  .of_pure (by simpa using h)

/-- **State vectors are well-formed.** -/
theorem stateBinding_gives :
    Gives (stateBinding limits) fun items => ∀ b ∈ items, b.WellFormed limits := by
  refine .skip fun _ => .skip fun group => ?_
  split
  · exact matrixBinding_gives limits
  · exact .skip fun _ => .skip fun _ => .skip fun _ => of_single limits trivial
  · exact lightIndex_gives.bind fun _ h => .skip fun _ => .skip fun _ => of_single limits h
  · refine .skip fun _ => .skip fun name => ?_
    split
    · exact of_single limits trivial
    · exact of_single limits trivial
    · exact .skip fun _ => .skip fun _ => of_single limits trivial
    · exact .skip fun _ => .skip fun _ => of_single limits trivial
    · exact .of_unexpected
  · refine lightIndex_gives.bind fun _ hlight => .skip fun _ => .skip fun _ => ?_
    exact productProperty_gives.bind fun _ hproperty => of_single limits ⟨hlight, hproperty⟩
  · refine .skip fun _ => .skip fun name => ?_
    split
    · exact of_single limits trivial
    · exact of_single limits trivial
    · exact .of_unexpected
  · refine .skip fun n => (below_gives _ _ n).bind fun _ h => ?_
    exact .skip fun _ => .skip fun _ => of_single limits h
  · refine .skip fun _ => .skip fun name => ?_
    split
    · exact of_single limits trivial
    · exact of_single limits trivial
    · exact .of_unexpected
  · refine (coordUnit_gives limits _).bind fun _ h => ?_
    exact .skip fun _ => .skip fun _ => of_single limits h
  · exact .skip fun _ => .skip fun _ => of_single limits trivial
  · exact .of_refuse

/-! ## Parameters -/

/-- Places in a bank lie inside it. -/
theorem bankBinding_gives (root : Token) (multiple : Bool) :
    Gives (bankBinding limits root multiple) fun items => ∀ b ∈ items, b.WellFormed limits := by
  have places_gives (place : Nat → ParamBinding) (bank : Token) (limit : Nat)
      (h : ∀ n, n < limit → (place n).WellFormed limits) :
      Gives (do
        let places ← range
        if !multiple && places.value.1 != places.value.2 then
          refuse .bankRangeOutsideArray root.offset
        if limit ≤ places.value.2 then
          refuse (.bankLimit bank.text places.value.2 limit) places.offset
        return (span places.value.1 places.value.2).map place)
        fun items => ∀ b ∈ items, b.WellFormed limits := by
    refine .skip fun places => .guard fun _ => ?_
    refine .guard fun hlimit => .of_pure ?_
    intro b hb
    obtain ⟨n, hn, rfl⟩ := List.mem_map.1 hb
    exact h n (Nat.lt_of_le_of_lt (le_of_mem_span hn) (Nat.lt_of_not_le hlimit))
  refine .skip fun _ => .skip fun bank => ?_
  dsimp only
  split
  · exact places_gives _ bank _ fun _ h => h
  · exact places_gives _ bank _ fun _ h => h
  · exact .unexpected_bind

/-- **Parameters are well-formed.** -/
theorem paramItem_gives (first : Token) (multiple : Bool) :
    Gives (paramItem limits first multiple) fun items => ∀ b ∈ items, b.WellFormed limits := by
  have one {v : Vector4} (h : v.IsFinite) : Gives (pure [ParamBinding.constant v])
      fun items => ∀ b ∈ items, b.WellFormed limits := .of_pure (by simpa [ParamBinding.WellFormed] using h)
  have many {items : List StateBinding} (h : ∀ b ∈ items, b.WellFormed limits) :
      Gives (pure (items.map ParamBinding.state))
        fun items => ∀ b ∈ items, b.WellFormed limits :=
    .of_pure (by simpa [ParamBinding.WellFormed] using h)
  unfold paramItem
  split
  · exact vector_gives.bind fun _ => one
  · exact (signedNumber_gives first).bind fun _ h => one (isFinite_replicate h)
  · exact (signedNumber_gives first).bind fun _ h => one (isFinite_replicate h)
  · exact (signedNumber_gives first).bind fun _ h => one (isFinite_replicate h)
  · exact (signedNumber_gives first).bind fun _ h => one (isFinite_replicate h)
  · split
    · refine (stateBinding_gives limits).bind fun items h => .guard fun _ => ?_
      exact many h
    · exact bankBinding_gives limits first multiple
    · exact .of_unexpected
  · exact .of_unexpected

theorem singleParam_gives (first : Token) :
    Gives (singleParam limits first) (ParamBinding.WellFormed limits) := by
  refine (paramItem_gives limits first false).bind fun items h => ?_
  split
  · exact .of_pure (h _ List.mem_cons_self)
  · exact .of_refuse

theorem paramItemsWithin_gives (bound : Nat) :
    Gives (paramItemsWithin limits bound) fun items => ∀ b ∈ items, b.WellFormed limits := by
  induction bound with
  | zero => exact .skip fun _ => .of_unexpected
  | succ bound ih =>
    refine .skip fun first => (paramItem_gives limits first true).bind fun items h => ?_
    refine .skip fun t => ?_
    split
    · refine ih.bind fun more hmore => .of_pure ?_
      intro b hb
      exact (List.mem_append.1 hb).elim (h b) (hmore b)
    · exact .of_pure h
    · exact .of_unexpected

theorem paramItems_gives :
    Gives (paramItems limits) fun items => ∀ b ∈ items, b.WellFormed limits :=
  .skip fun _ => paramItemsWithin_gives limits _

end ShaderAssembly.Scan
