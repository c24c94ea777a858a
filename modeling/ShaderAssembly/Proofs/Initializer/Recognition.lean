import ShaderAssembly.Proofs.Initializer.Step
/-!
# What is accepted is spelled

* `Scan.signedNumber_yields`, `Scan.components_yields`, `Scan.range_yields`, `Scan.matrixName_yields`,
  `Scan.stateBinding_yields`: the parts of an initializer;
* **`Scan.paramItem_yields`**: an initializer that is accepted is spelled in one of the forms;
* **`Scan.paramItems_yields`**: so is each of a list.
-/

namespace ShaderAssembly.Scan

variable {limits : Limits} {c : Cursor}

/-! ## Numbers and subscripts -/

theorem number_yields (t : Token) : Yields (number t) c fun v d => t.IsNumber v ∧ d = c :=
  fun _ _ => number_eq_ok.1

theorem signedNumber_yields : Yields (signedNumber c.upcoming) c.advance c.Signed := by
  unfold signedNumber
  split
  · rename_i hsign
    refine .next ((number_yields _).bind ?_)
    rintro v _ ⟨hnumber, rfl⟩
    exact .of_pure (.minus ⟨hsign, hnumber, rfl⟩)
  · rename_i hsign
    refine .next ?_
    rintro v _ h
    obtain ⟨hnumber, rfl⟩ := number_yields _ _ _ h
    exact .plus ⟨hsign, hnumber, rfl⟩
  · rintro v _ h
    obtain ⟨hnumber, rfl⟩ := number_yields _ _ _ h
    exact .bare ⟨hnumber, rfl⟩

theorem components_yields (room : Nat) : Yields (components room) c (c.Lists Cursor.Signed) := by
  induction room generalizing c with
  | zero => exact .next .of_unexpected
  | succ room ih =>
    unfold components
    refine .next (signedNumber_yields.bind fun v d hv => .next ?_)
    split
    · rename_i hcomma
      exact ih.bind fun vs e hvs => .of_pure (.more hv ⟨hcomma, rfl⟩ hvs)
    · rename_i hbrace
      exact .of_pure (.last hv ⟨hbrace, rfl⟩)
    · exact .of_unexpected

theorem index?_yields : Yields index? c fun n? d => match n? with
    | none => d = c
    | some n =>
      c.Shows [(·.kind = .leftBracket), (·.kind = .integer n.value), (·.kind = .rightBracket)] d := by
  intro n? d e
  cases n? with
  | none => exact (index?_eq_none.1 e).2
  | some n => exact (index_eq_ok.1 (index?_eq_some.1 e)).1

theorem range_yields : Yields range c fun r d => c.Ranges r.value.1 r.value.2 d := by
  refine .expect fun hleft => .integer fun a hstart => .next ?_
  split
  · rename_i hright
    exact .of_pure (.one ⟨hleft, hstart, hright, rfl⟩)
  · rename_i hdots
    refine .integer fun b hstop => .expect fun hright => .guard fun _ => .of_pure ?_
    exact .many ⟨hleft, hstart, hdots, hstop, hright, rfl⟩
  · exact .of_unexpected

/-! ## Matrices -/

theorem matrixName_yields : Yields (matrixName limits) c fun name d => name.Spelled limits c d := by
  refine .word fun hword => ?_
  split
  · rename_i htext
    refine index?_yields.bind fun n? d hindex => ?_
    cases n? with
    | none => exact .of_pure (.modelView ⟨⟨hword, htext⟩, hindex⟩)
    | some n =>
      dsimp only at hindex ⊢
      split
      · rename_i hzero
        rw [hzero] at hindex
        exact .of_pure (.modelViewZero ⟨⟨hword, htext⟩, hindex⟩)
      · exact .of_refuse
  · exact .of_pure (.projection ⟨⟨hword, ‹_›⟩, rfl⟩)
  · exact .of_pure (.mvp ⟨⟨hword, ‹_›⟩, rfl⟩)
  · rename_i htext
    have hunit : Yields (coordUnit limits "texture matrix") c.advance fun unit d =>
        MatrixName.Spelled limits c (.texture unit) d := by
      refine index?_yields.bind fun n? d hindex => ?_
      cases n? with
      | none => exact .of_pure (.textureZero ⟨⟨hword, htext⟩, hindex⟩)
      | some n =>
        refine (below_yields _ _ _).bind ?_
        rintro _ _ ⟨hn, rfl⟩
        exact .of_pure (.texture ⟨⟨hword, htext⟩, hindex⟩ hn)
    exact hunit.bind fun unit d h => .of_pure h
  · exact .of_refuse

theorem matrixModifier_yields :
    Yields matrixModifier c fun modifier d => c.Suffixed modifier.word? d := by
  intro modifier d e
  obtain ⟨text?, c₁, hsuffix, e⟩ := bind_eq_ok.1 e
  cases text? with
  | none =>
    cases e
    exact (suffix?_eq_none.1 hsuffix).1
  | some text =>
    obtain ⟨hmem, hsuffix⟩ := suffix?_eq_some.1 hsuffix
    obtain rfl | rfl | rfl : text = "inverse" ∨ text = "transpose" ∨ text = "invtrans" := by
      simpa using hmem
    all_goals
      cases e
      exact hsuffix

theorem matrixRows_yields : Yields matrixRows c fun _ d => ∃ rows, c.Rows rows d := by
  intro _ d e
  obtain ⟨text?, c₁, hsuffix, e⟩ := bind_eq_ok.1 e
  cases text? with
  | none =>
    cases e
    obtain ⟨rfl, -⟩ := suffix?_eq_none.1 hsuffix
    exact ⟨none, .all⟩
  | some text =>
    obtain ⟨hmem, hsuffix⟩ := suffix?_eq_some.1 hsuffix
    obtain rfl := List.mem_singleton.1 hmem
    obtain ⟨r, c₂, hrange, e⟩ := bind_eq_ok.1 e
    obtain ⟨_, _, hbelow, ⟨⟩⟩ := bind_eq_ok.1 e
    obtain ⟨-, rfl⟩ := below_yields _ _ _ _ _ hbelow
    exact ⟨some r.value, .some hsuffix (range_yields _ _ hrange)⟩

theorem stateBinding_yields (hother : ∀ e, ¬ c.Suffixed (some "matrix") e) :
    Yields (stateBinding limits) c fun items _ => ∃ b, items = [b] := by
  have one {b : StateBinding} {c : Cursor} :
      Yields (pure [b]) c fun items _ => ∃ b, items = [b] := .of_pure ⟨b, rfl⟩
  refine .expect fun hpoint => .word fun hword => ?_
  split
  · exact absurd ⟨hpoint, ⟨hword, ‹_›⟩, rfl⟩ (hother c.advance.advance)
  · exact .skip fun _ _ => .skip fun _ _ => .skip fun _ _ => one
  · exact .skip fun _ _ => .skip fun _ _ => .skip fun _ _ => one
  · refine .skip fun _ _ => .skip fun name _ => ?_
    split
    · exact one
    · exact one
    · exact .skip fun _ _ => .skip fun _ _ => one
    · exact .skip fun _ _ => .skip fun _ _ => one
    · exact .of_unexpected
  · exact .skip fun _ _ => .skip fun _ _ => .skip fun _ _ => .skip fun _ _ => one
  · refine .skip fun _ _ => .skip fun name _ => ?_
    split
    · exact one
    · exact one
    · exact .of_unexpected
  · exact .skip fun _ _ => .skip fun _ _ => .skip fun _ _ => .skip fun _ _ => one
  · refine .skip fun _ _ => .skip fun name _ => ?_
    split
    · exact one
    · exact one
    · exact .of_unexpected
  · exact .skip fun _ _ => .skip fun _ _ => .skip fun _ _ => one
  · exact .skip fun _ _ => .skip fun _ _ => one
  · exact .of_refuse

/-! ## Initializers -/

theorem bankBinding_yields (root : Token) (multiple : Bool) :
    Yields (bankBinding limits root multiple) c fun _ d => ∃ (k : Bank) (start stop : Nat) (c₁ : Cursor),
      c.Shows [(·.kind = .dot), Token.IsWord k.word] c₁ ∧ c₁.Ranges start stop d := by
  have hrange (k : Bank) (place : Nat → ParamBinding) (bank : Token) (limit : Nat)
      (h : c.Shows [(·.kind = .dot), Token.IsWord k.word] c.advance.advance) :
      Yields (do
        let places ← range
        if !multiple && places.value.1 != places.value.2 then
          refuse .bankRangeOutsideArray root.offset
        if limit ≤ places.value.2 then refuse (.bankLimit bank.text places.value.2 limit) places.offset
        return (span places.value.1 places.value.2).map place) c.advance.advance fun _ d =>
          ∃ (k : Bank) (start stop : Nat) (c₁ : Cursor),
            c.Shows [(·.kind = .dot), Token.IsWord k.word] c₁ ∧ c₁.Ranges start stop d :=
    range_yields.bind fun places d hplaces => .guard fun _ => .guard fun _ =>
      .of_pure ⟨k, _, _, _, h, hplaces⟩
  unfold bankBinding
  refine .expect fun hpoint => .word fun hword => ?_
  split
  · rename_i htext
    exact hrange .env _ _ _ ⟨hpoint, ⟨hword, htext⟩, rfl⟩
  · rename_i htext
    exact hrange .localParams _ _ _ ⟨hpoint, ⟨hword, htext⟩, rfl⟩
  · exact .of_unexpected

theorem matrixBinding_yields : Yields (matrixBinding limits) c fun _ d =>
    ∃ (name : MatrixName) (modifier : MatrixModifier) (rows : Option (Nat × Nat)) (c₁ c₂ : Cursor),
      c.upcoming.kind = .dot ∧ name.Spelled limits c.advance c₁ ∧
        c₁.Suffixed modifier.word? c₂ ∧ c₂.Rows rows d := by
  refine .expect fun hpoint => matrixName_yields.bind fun name c₁ hname =>
    matrixModifier_yields.bind fun modifier c₂ hmodifier => matrixRows_yields.bind ?_
  rintro _ d ⟨rows, hrows⟩
  exact .of_pure ⟨name, modifier, rows, c₁, c₂, hpoint, hname, hmodifier, hrows⟩

/-- A binding of the state is a matrix or one vector. -/
theorem spelled_of_stateBinding {items : List StateBinding} {d : Cursor}
    (hword : c.upcoming.IsWord "state") (h : stateBinding limits c.advance = .ok items d) :
    ∃ i : Initializer, i.Spelled limits c d := by
  by_cases hmatrix : c.advance.Suffixed (some "matrix") c.advance.advance.advance
  · have hgroup : Yields (stateBinding limits) c.advance fun _ d =>
        ∃ i : Initializer, i.Spelled limits c d := by
      refine .expect fun _ => .word fun _ => ?_
      simp only [hmatrix.2.1.2]
      intro items d h
      obtain ⟨name, modifier, rows, c₁, c₂, hpoint, hname, hmodifier, hrows⟩ :=
        matrixBinding_yields items d h
      exact ⟨.matrix name modifier rows,
        .matrix ⟨hword, hmatrix.1, hmatrix.2.1, hpoint, rfl⟩ hname hmodifier hrows⟩
    exact hgroup items d h
  · have hother : ∀ e, ¬ c.advance.Suffixed (some "matrix") e := fun e he => by
      obtain ⟨hpoint, hgroup, rfl⟩ := he
      exact hmatrix ⟨hpoint, hgroup, rfl⟩
    obtain ⟨b, rfl⟩ := stateBinding_yields hother items d h
    exact ⟨.state b, .state ⟨hword, rfl⟩ hother h⟩

/-- **An initializer that is accepted is spelled in one of the forms.** -/
theorem paramItem_yields (multiple : Bool) :
    Yields (paramItem limits c.upcoming multiple) c.advance fun _ d =>
      ∃ i : Initializer, i.Spelled limits c d := by
  have hscalar : Yields (do return [ParamBinding.constant (.replicate (← signedNumber c.upcoming))])
      c.advance fun _ d => ∃ i : Initializer, i.Spelled limits c d :=
    signedNumber_yields.bind fun v d hv => .of_pure ⟨.scalar v, .scalar hv⟩
  unfold paramItem
  split
  · rename_i hbrace
    have hvector : Yields vector c.advance fun _ d => ∃ i : Initializer, i.Spelled limits c d :=
      (components_yields 4).bind fun vs d hvs => .of_pure ⟨.vector vs, .vector ⟨hbrace, rfl⟩ hvs⟩
    exact hvector.bind fun _ _ h => .of_pure h
  · exact hscalar
  · exact hscalar
  · exact hscalar
  · exact hscalar
  · rename_i hword
    split
    · rename_i htext
      have hread : Yields (stateBinding limits) c.advance fun _ d =>
          ∃ i : Initializer, i.Spelled limits c d :=
        fun _ _ h => spelled_of_stateBinding ⟨hword, htext⟩ h
      exact hread.bind fun _ _ h => .guard fun _ => .of_pure h
    · rename_i htext
      intro items d h
      obtain ⟨k, start, stop, c₁, hbank, hrange⟩ := bankBinding_yields _ _ items d h
      exact ⟨.bank k start stop, .bank ⟨⟨hword, htext⟩, hbank⟩ hrange⟩
    · exact .of_unexpected
  · exact .of_unexpected

theorem paramItemsWithin_yields (bound : Nat) : Yields (paramItemsWithin limits bound) c fun _ d =>
    ∃ items, c.Lists (Initializer.Spelled limits) items d := by
  induction bound generalizing c with
  | zero => exact .next .of_unexpected
  | succ bound ih =>
    unfold paramItemsWithin
    refine .next ((paramItem_yields true).bind ?_)
    rintro _ d ⟨i, hi⟩
    refine .next ?_
    split
    · rename_i hcomma
      refine ih.bind ?_
      rintro _ e ⟨items, hitems⟩
      exact .of_pure ⟨i :: items, .more hi ⟨hcomma, rfl⟩ hitems⟩
    · rename_i hbrace
      exact .of_pure ⟨[i], .last hi ⟨hbrace, rfl⟩⟩
    · exact .of_unexpected

/-- **A list of initializers that is accepted is spelled.** -/
theorem paramItems_yields : Yields (paramItems limits) c fun _ d =>
    ∃ items, c.Lists (Initializer.Spelled limits) items d :=
  fun items d h => paramItemsWithin_yields (c.rest.length + 1) items d h

end ShaderAssembly.Scan
