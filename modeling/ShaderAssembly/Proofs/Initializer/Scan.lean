import ShaderAssembly.Proofs.Initializer.Step
/-!
# Initializers are read as they are spelled

* `Scan.signedNumber_spelled`, `Scan.components_spelled`, `Scan.range_spelled`,
  `Scan.matrixBinding_spelled`, `Scan.bankBinding_spelled`: the parts of an initializer;
* **`Scan.paramItem_spelled`**: an initializer that is spelled is accepted exactly if it is
  admissible, and gives its vectors;
* **`Scan.paramItems_spelled`**: a list of them gives the vectors of all, in their order.
-/

namespace ShaderAssembly

open Reading (Decides bind_of_ok bind_of_error)

namespace Scan

variable {limits : Limits} {c d e : Cursor}

/-! ## Numbers and subscripts -/

theorem signedNumber_unsigned {t : Token} (h : t.number?.isSome = true) : signedNumber t = number t := by
  unfold signedNumber
  unfold Token.number? at h
  split
  · rename_i hkind
    rw [hkind] at h
    cases h
  · rename_i hkind
    rw [hkind] at h
    cases h
  · rfl

theorem signedNumber_spelled {v : Single} (h : c.Signed v d) :
    signedNumber c.upcoming c.advance = .ok v d := by
  cases h with
  | bare h =>
    obtain ⟨hnumber, rfl⟩ := h
    rw [signedNumber_unsigned (by rw [hnumber.1]; rfl)]
    exact number_eq_ok.2 ⟨hnumber, rfl⟩
  | plus h =>
    obtain ⟨hsign, hnumber, rfl⟩ := h
    unfold signedNumber
    simp only [hsign]
    exact (bind_of_ok (next_eq _)).trans (number_eq_ok.2 ⟨hnumber, rfl⟩)
  | minus h =>
    obtain ⟨hsign, hnumber, rfl⟩ := h
    unfold signedNumber
    simp only [hsign]
    rw [bind_of_ok (next_eq _), bind_of_ok (number_eq_ok.2 ⟨hnumber, rfl⟩)]
    rfl

theorem components_spelled {vs : List Single} (h : c.Lists Cursor.Signed vs d) (room : Nat) :
    Decides (components room) c (vs.length ≤ room) vs d := by
  induction h generalizing room with
  | @last c d e v hv hend =>
    obtain ⟨hend, rfl⟩ := hend
    cases room with
    | zero => exact (Decides.of_error rfl).congr (by simp)
    | succ room =>
      refine (Decides.of_ok ?_).congr (by simp)
      unfold components
      rw [bind_of_ok (next_eq c), bind_of_ok (signedNumber_spelled hv), bind_of_ok (next_eq d)]
      simp only [hend]
      rfl
  | @more c d e f v vs hv hcomma _ ih =>
    obtain ⟨hcomma, rfl⟩ := hcomma
    cases room with
    | zero => exact (Decides.of_error rfl).congr (by simp)
    | succ room =>
      unfold components
      refine .behind (next_eq c) (.behind (signedNumber_spelled hv) (.behind (next_eq d) ?_))
      simp only [hcomma]
      have hmore : Decides (do return v :: (← components room)) d.advance (vs.length ≤ room) (v :: vs) f :=
        (ih room).before rfl
      exact hmore.congr Nat.succ_le_succ_iff.symm

theorem vector_spelled {vs : List Single} (h : c.Lists Cursor.Signed vs d) :
    Decides vector c (vs.length ≤ 4) (.ofPrefix vs) d :=
  (components_spelled h 4).before rfl

theorem vector_empty (h : c.upcoming.kind = .rightBrace) : ∃ f d, vector c = .error f d := by
  have hfirst : signedNumber c.upcoming c.advance =
      .error ⟨.unexpected "a number" c.upcoming, c.upcoming.offset⟩ c.advance := by
    have hnumber : c.upcoming.number? = none := by
      unfold Token.number?
      simp only [h]
    unfold signedNumber number
    simp only [h, hnumber]
    rfl
  have hnumbers : components 4 c =
      .error ⟨.unexpected "a number" c.upcoming, c.upcoming.offset⟩ c.advance := by
    rw [components, bind_of_ok (next_eq c), bind_of_error hfirst]
  exact ⟨_, _, bind_of_error hnumbers⟩

theorem range_spelled {a b : Nat} (h : c.Ranges a b d) :
    ∃ offset, Decides range c (a ≤ b) ⟨(a, b), offset⟩ d := by
  refine ⟨c.advance.upcoming.offset, ?_⟩
  cases h with
  | one h =>
    obtain ⟨hleft, hnumber, hright, rfl⟩ := h
    refine (Decides.of_ok ?_).congr (by simp)
    rw [range, bind_of_ok (expect_eq_ok.2 ⟨hleft, rfl⟩),
      bind_of_ok (integer_eq_ok.2 ⟨_, hnumber, rfl, rfl⟩), bind_of_ok (next_eq _)]
    simp only [hright]
    rfl
  | many h =>
    obtain ⟨hleft, hstart, hdots, hstop, hright, rfl⟩ := h
    unfold range
    refine .behind (expect_eq_ok.2 ⟨hleft, rfl⟩) (.behind (integer_eq_ok.2 ⟨_, hstart, rfl, rfl⟩)
      (.behind (next_eq _) ?_))
    simp only [hdots]
    refine .behind (integer_eq_ok.2 ⟨_, hstop, rfl, rfl⟩) (.behind (expect_eq_ok.2 ⟨hright, rfl⟩) ?_)
    refine Decides.congr (Decides.guard rfl fun _ => .of_ok rfl) ?_
    simp

/-! ## Matrices -/

theorem coordUnit_spelled {what : String} {n : Nat} (hn : n < limits.maxTextureCoords)
    (h : c.Shows [(·.kind = .leftBracket), (·.kind = .integer n), (·.kind = .rightBracket)] d) :
    coordUnit limits what c = .ok n d := by
  have hindex : index c = .ok ⟨n, c.advance.upcoming.offset⟩ d := index_eq_ok.2 ⟨h, rfl⟩
  rw [coordUnit, bind_of_ok (index?_eq_some.2 hindex)]
  exact bind_of_ok ((below_decides limits.maxTextureCoords what ⟨n, _⟩).1 hn)

theorem coordUnit_absent {what : String} (h : c.upcoming.kind ≠ .leftBracket) :
    coordUnit limits what c = .ok 0 c := by
  rw [coordUnit, bind_of_ok (index?_eq_none.2 ⟨h, rfl⟩)]
  rfl

theorem matrixName_spelled {name : MatrixName} (h : name.Spelled limits c d)
    (hend : d.upcoming.kind ≠ .leftBracket) : matrixName limits c = .ok name d := by
  have hword {text : String} (h : c.upcoming.IsWord text) :
      word "a matrix name" c = .ok c.upcoming c.advance := word_eq_ok.2 ⟨h.1, rfl, rfl⟩
  unfold matrixName
  cases h with
  | modelView h =>
    obtain ⟨hname, rfl⟩ := h
    rw [bind_of_ok (hword hname)]
    simp only [hname.2]
    rw [bind_of_ok (index?_eq_none.2 ⟨hend, rfl⟩)]
    rfl
  | modelViewZero h =>
    obtain ⟨hname, h⟩ := h
    have hindex : index c.advance = .ok ⟨0, c.advance.advance.upcoming.offset⟩ d := index_eq_ok.2 ⟨h, rfl⟩
    rw [bind_of_ok (hword hname)]
    simp only [hname.2]
    rw [bind_of_ok (index?_eq_some.2 hindex)]
    rfl
  | projection h | mvp h =>
    obtain ⟨hname, rfl⟩ := h
    rw [bind_of_ok (hword hname)]
    simp only [hname.2]
    rfl
  | textureZero h =>
    obtain ⟨hname, rfl⟩ := h
    rw [bind_of_ok (hword hname)]
    simp only [hname.2]
    rw [bind_of_ok (coordUnit_absent hend)]
    rfl
  | texture h hn =>
    obtain ⟨hname, h⟩ := h
    rw [bind_of_ok (hword hname)]
    simp only [hname.2]
    rw [bind_of_ok (coordUnit_spelled hn h)]
    rfl

theorem matrixModifier_spelled {modifier : MatrixModifier} (h : c.Suffixed modifier.word? d)
    (hend : ∀ m : MatrixModifier, ∀ text ∈ m.word?, ∀ e, ¬ d.Suffixed (some text) e) :
    matrixModifier c = .ok modifier d := by
  unfold matrixModifier
  cases modifier with
  | identity =>
    obtain rfl : d = c := h
    have hnone : suffix? ["inverse", "transpose", "invtrans"] d = .ok none d := by
      refine suffix?_eq_none.2 ⟨rfl, fun text htext => ?_⟩
      obtain rfl | rfl | rfl : text = "inverse" ∨ text = "transpose" ∨ text = "invtrans" := by
        simpa using htext
      · exact hend .inverse _ rfl
      · exact hend .transpose _ rfl
      · exact hend .inverseTranspose _ rfl
    rw [bind_of_ok hnone]
    rfl
  | inverse | transpose | inverseTranspose =>
    rw [bind_of_ok (suffix?_eq_some.2 ⟨by decide, h⟩)]
    rfl

theorem matrixRows_spelled {rows : Option (Nat × Nat)} (h : c.Rows rows d)
    (hend : d.upcoming.kind ≠ .dot) :
    Decides matrixRows c (∀ r ∈ rows, r.1 ≤ r.2 ∧ r.2 < matrixRowCount)
      (rows.getD (0, matrixRowCount - 1)) d := by
  unfold matrixRows
  cases h with
  | all =>
    have hnone : suffix? ["row"] c = .ok none c :=
      suffix?_eq_none.2 ⟨rfl, fun _ _ _ hsuffix => hend hsuffix.1⟩
    refine (Decides.of_ok ?_).congr (by simp)
    rw [bind_of_ok hnone]
    rfl
  | @some a b c₁ _ hword hrange =>
    obtain ⟨offset, hrange⟩ := range_spelled hrange
    refine .behind (suffix?_eq_some.2 ⟨List.mem_singleton_self _, hword⟩) ?_
    have hrows : Decides (do
        let rows ← range
        below matrixRowCount "matrix row" ⟨rows.value.2, rows.offset⟩
        return rows.value) c₁ (a ≤ b ∧ b < matrixRowCount) (a, b) d :=
      hrange.bind fun _ => (below_decides matrixRowCount "matrix row" ⟨b, offset⟩).before rfl
    exact hrows.congr (by simp)

theorem unbracketed_of_suffixed {text? : Option String} (h : c.Suffixed text? d)
    (hend : d.upcoming.kind ≠ .leftBracket) : c.upcoming.kind ≠ .leftBracket := by
  cases text? with
  | none => exact (show d = c from h) ▸ hend
  | some text =>
    rw [h.1]
    nofun

theorem unbracketed_of_rows {rows : Option (Nat × Nat)} (h : c.Rows rows d)
    (hend : d.upcoming.kind ≠ .leftBracket) : c.upcoming.kind ≠ .leftBracket := by
  cases h with
  | all => exact hend
  | some hword _ =>
    rw [hword.1]
    nofun

/-- A matrix is accepted exactly if its rows are, and gives one vector for each. -/
theorem matrixBinding_spelled {name : MatrixName} {modifier : MatrixModifier}
    {rows : Option (Nat × Nat)} {c₁ c₂ c₃ : Cursor} (hpoint : c.Shows [(·.kind = .dot)] c₁)
    (hname : name.Spelled limits c₁ c₂) (hmodifier : c₂.Suffixed modifier.word? c₃)
    (hrows : c₃.Rows rows d) (hend : d.Ends) :
    Decides (matrixBinding limits) c (∀ r ∈ rows, r.1 ≤ r.2 ∧ r.2 < matrixRowCount)
      ((span (rows.getD (0, matrixRowCount - 1)).1 (rows.getD (0, matrixRowCount - 1)).2).map
        (.matrixRow name modifier)) d := by
  obtain ⟨hpoint, rfl⟩ := hpoint
  have hmore : ∀ m : MatrixModifier, ∀ text ∈ m.word?, ∀ e, ¬ c₃.Suffixed (some text) e := by
    intro m text hm e hsuffix
    cases hrows with
    | all => exact hend.1 hsuffix.1
    | some hrow hrange =>
      have hword : text = "row" := hsuffix.2.1.2.symm.trans hrow.2.1.2
      cases m <;> cases hm <;> exact absurd hword (by decide)
  have hbracket : c₂.upcoming.kind ≠ .leftBracket :=
    unbracketed_of_suffixed hmodifier (unbracketed_of_rows hrows hend.2)
  refine .behind (expect_eq_ok.2 ⟨hpoint, rfl⟩) (.behind (matrixName_spelled hname hbracket)
    (.behind (matrixModifier_spelled hmodifier hmore) ?_))
  exact (matrixRows_spelled hrows hend.1).before rfl

/-! ## Banks -/

/-- Places in a bank are accepted unless they run backwards or beyond the bank, or are several where
one is wanted. -/
theorem bankBinding_spelled {k : Bank} {start stop : Nat} {c₁ : Cursor} (root : Token) (multiple : Bool)
    (hword : c.Shows [(·.kind = .dot), Token.IsWord k.word] c₁) (hrange : c₁.Ranges start stop d) :
    Decides (bankBinding limits root multiple) c
      ((start ≤ stop ∧ stop < k.size limits) ∧ (multiple = true ∨ start = stop))
      ((span start stop).map k.place) d := by
  obtain ⟨hpoint, hword, rfl⟩ := hword
  obtain ⟨offset, hrange⟩ := range_spelled hrange
  have hchecks : Decides (do
      let places ← range
      if !multiple && places.value.1 != places.value.2 then
        refuse .bankRangeOutsideArray root.offset
      if k.size limits ≤ places.value.2 then
        refuse (.bankLimit k.word places.value.2 (k.size limits)) places.offset
      return (span places.value.1 places.value.2).map k.place) c.advance.advance
      ((start ≤ stop ∧ stop < k.size limits) ∧ (multiple = true ∨ start = stop))
      ((span start stop).map k.place) d := by
    refine Decides.congr
      (hrange.bind fun _ => Decides.guard rfl fun _ => Decides.guard rfl fun _ => .of_ok rfl) ?_
    cases multiple <;> simp [and_comm, and_left_comm]
  unfold bankBinding
  refine .behind (expect_eq_ok.2 ⟨hpoint, rfl⟩) (.behind (word_eq_ok.2 ⟨hword.1, rfl, rfl⟩) ?_)
  cases k with
  | env =>
    simp only [hword.2]
    exact hchecks
  | localParams =>
    simp only [hword.2]
    exact hchecks

/-! ## Initializers -/

theorem stateBinding_matrix {P : Prop} {items : List StateBinding} {c₁ : Cursor}
    (hword : c.Shows [(·.kind = .dot), Token.IsWord "matrix"] c₁)
    (h : Decides (matrixBinding limits) c₁ P items d) : Decides (stateBinding limits) c P items d := by
  obtain ⟨hpoint, hword, rfl⟩ := hword
  unfold stateBinding
  refine .behind (expect_eq_ok.2 ⟨hpoint, rfl⟩) (.behind (word_eq_ok.2 ⟨hword.1, rfl, rfl⟩) ?_)
  simp only [hword.2]
  exact h

theorem expand_matrix (name : MatrixName) (modifier : MatrixModifier) (rows : Option (Nat × Nat)) :
    (Initializer.matrix name modifier rows).expand =
      ((span (rows.getD (0, matrixRowCount - 1)).1 (rows.getD (0, matrixRowCount - 1)).2).map
        (.matrixRow name modifier)).map .state := by
  rw [List.map_map]
  cases rows <;> rfl

theorem paramItem_number {t : Token} (multiple : Bool)
    (h : t.kind = .plus ∨ t.kind = .minus ∨ t.number?.isSome = true) :
    paramItem limits t multiple = do return [.constant (.replicate (← signedNumber t))] := by
  unfold Token.number? at h
  unfold paramItem
  cases hkind : t.kind <;> simp [hkind] at h ⊢

theorem paramItem_state {t : Token} (multiple : Bool) (h : t.IsWord "state") :
    paramItem limits t multiple = do
      let items ← stateBinding limits
      if !multiple && items.length != 1 then refuse .manyVectors t.offset
      return items.map .state := by
  unfold paramItem
  simp only [h.1, h.2]

theorem paramItem_program {t : Token} (multiple : Bool) (h : t.IsWord "program") :
    paramItem limits t multiple = bankBinding limits t multiple := by
  unfold paramItem
  simp only [h.1, h.2]

theorem paramItem_brace {t : Token} (multiple : Bool) (h : t.kind = .leftBrace) :
    paramItem limits t multiple = do return [.constant (← vector)] := by
  unfold paramItem
  simp only [h]

/-- **An initializer that is spelled is accepted exactly if it is admissible**, and is one vector
where one is wanted. It gives its vectors, in their order. -/
theorem paramItem_spelled {i : Initializer} (h : i.Spelled limits c d) (hend : d.Ends) (multiple : Bool) :
    Decides (paramItem limits c.upcoming multiple) c.advance
      (i.Admissible limits ∧ (multiple = true ∨ i.expand.length = 1)) i.expand d := by
  have hstate {items : List StateBinding} {P : Prop} {c₁ : Cursor}
      (h : Decides (stateBinding limits) c₁ P items d) :
      Decides (do
        let items ← stateBinding limits
        if !multiple && items.length != 1 then refuse .manyVectors c.upcoming.offset
        return items.map ParamBinding.state) c₁ (P ∧ (multiple = true ∨ items.length = 1))
        (items.map .state) d := by
    refine Decides.congr (h.bind fun _ => Decides.guard rfl fun _ => .of_ok rfl) ?_
    cases multiple <;> simp
  cases h with
  | scalar h =>
    have hfirst : c.upcoming.kind = .plus ∨ c.upcoming.kind = .minus ∨ c.upcoming.number?.isSome = true := by
      cases h with
      | bare h => exact .inr (.inr (by rw [h.1.1]; rfl))
      | plus h => exact .inl h.1
      | minus h => exact .inr (.inl h.1)
    rw [paramItem_number multiple hfirst]
    refine (Decides.of_ok ?_).congr (iff_of_true trivial ⟨trivial, .inr rfl⟩)
    rw [bind_of_ok (signedNumber_spelled h)]
    rfl
  | empty h =>
    obtain ⟨hleft, hright, rfl⟩ := h
    obtain ⟨f, d, herror⟩ := vector_empty hright
    rw [paramItem_brace multiple hleft]
    refine (Decides.of_error (bind_of_error herror)).congr ⟨False.elim, fun h => ?_⟩
    exact absurd h.1.1 (Nat.not_lt_zero 0)
  | @vector vs _ _ hleft h =>
    obtain ⟨hleft, rfl⟩ := hleft
    have hpos : 1 ≤ vs.length := List.length_pos_iff.2 h.ne_nil
    have hvector : Decides (do return [ParamBinding.constant (← vector)]) c.advance (vs.length ≤ 4)
      [.constant (.ofPrefix vs)] d := (vector_spelled h).before rfl
    rw [paramItem_brace multiple hleft]
    exact hvector.congr ⟨fun h => ⟨⟨hpos, h⟩, .inr rfl⟩, fun h => h.1.2⟩
  | @matrix name modifier rows c₁ c₂ c₃ _ hwords hname hmodifier hrows =>
    obtain ⟨hword, hpoint, hgroup, hpoint', rfl⟩ := hwords
    rw [paramItem_state multiple hword]
    have hbinding := matrixBinding_spelled ⟨hpoint', rfl⟩ hname hmodifier hrows hend
    rw [expand_matrix, List.length_map]
    exact hstate (stateBinding_matrix ⟨hpoint, hgroup, rfl⟩ hbinding)
  | @bank k start stop c₁ _ hword hrange =>
    obtain ⟨hroot, hword⟩ := hword
    rw [paramItem_program multiple hroot]
    refine (bankBinding_spelled _ multiple hword hrange).congr (and_congr_right fun hle => or_congr_right ?_)
    rw [Initializer.expand, List.length_map, Initializer.length_span]
    omega
  | @state b c₁ _ hword hother hread =>
    obtain ⟨hword, rfl⟩ := hword
    rw [paramItem_state multiple hword]
    exact (hstate (.of_ok hread)).congr Iff.rfl

/-! ## Lists of initializers -/

/-- One initializer of an array and the token behind it, which is not a part of it. -/
theorem paramRound_spelled {i : Initializer} {kind : TokenKind} (h : i.Spelled limits c d)
    (hkind : d.upcoming.kind = kind) (hdot : kind ≠ .dot) (hbracket : kind ≠ .leftBracket) :
    Decides (paramRound limits) c (i.Admissible limits) (i.expand, d.upcoming) d.advance := by
  have hitem := paramItem_spelled h ⟨hkind ▸ hdot, hkind ▸ hbracket⟩ true
  have hround : Decides (paramRound limits) c (i.Admissible limits ∧ (true = true ∨ i.expand.length = 1))
      (i.expand, d.upcoming) d.advance := .behind (next_eq c) (hitem.before rfl)
  exact hround.congr (and_iff_left (.inl rfl))

/-- Initializers are read one by one, if there are no more of them than rounds. -/
theorem paramItemsWithin_spelled {items : List Initializer}
    (h : c.Lists (Initializer.Spelled limits) items d) {bound : Nat} (hbound : items.length ≤ bound) :
    Decides (paramItemsWithin limits bound) c (∀ i ∈ items, i.Admissible limits)
      (items.flatMap Initializer.expand) d := by
  induction h generalizing bound with
  | @last c d e i hi hbrace =>
    obtain ⟨hbrace, rfl⟩ := hbrace
    obtain ⟨bound, rfl⟩ := Nat.exists_eq_add_one_of_ne_zero (Nat.ne_zero_of_lt hbound)
    have hround := paramRound_spelled hi hbrace (by decide) (by decide)
    rw [paramItemsWithin_succ, List.flatMap_cons, List.flatMap_nil, List.append_nil]
    refine Decides.congr (hround.before ?_) List.forall_mem_singleton.symm
    simp only [hbrace]
    rfl
  | @more c d e f i items hi hcomma _ ih =>
    obtain ⟨hcomma, rfl⟩ := hcomma
    obtain ⟨bound, rfl⟩ := Nat.exists_eq_add_one_of_ne_zero (Nat.ne_zero_of_lt hbound)
    have hround := paramRound_spelled hi hcomma (by decide) (by decide)
    have hmore := ih (Nat.le_of_succ_le_succ hbound)
    rw [paramItemsWithin_succ, List.flatMap_cons]
    refine Decides.congr (hround.bind (Q := ∀ j ∈ items, j.Admissible limits) fun _ => ?_)
      List.forall_mem_cons.symm
    simp only [hcomma]
    exact hmore.before rfl

/-- **A list of initializers is accepted exactly if each of them is admissible.** It gives the vectors
of all, in their order. -/
theorem paramItems_spelled {items : List Initializer}
    (h : c.Lists (Initializer.Spelled limits) items d) :
    Decides (paramItems limits) c (∀ i ∈ items, i.Admissible limits)
      (items.flatMap Initializer.expand) d :=
  .behind (a := c) rfl (paramItemsWithin_spelled h
    (Nat.le_succ_of_le (h.length_le fun _ _ _ => Initializer.Spelled.suffix)))

end Scan

end ShaderAssembly
