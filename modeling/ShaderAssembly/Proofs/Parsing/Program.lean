import ShaderAssembly.Proofs.Parsing.Operand
import ShaderAssembly.Translation
/-!
# What reading a program leaves behind

* `Parse.statementHere_keeps`: one statement;
* `ProgramReader.runWithin_wellFormed`: any number of them;
* **`wellFormed_of_readProgram`**: a program that is accepted is well-formed.
-/

namespace ShaderAssembly

variable {kind : ProgramKind} {limits : Limits} {d₀ : Draft}

namespace Parse

/-! ## Declarations -/

theorem declare_keeps {name : Token} {k : VariableKind} (hn : name.kind = .identifier)
    (hk : k.WellFormed kind limits) :
    Keeps kind limits d₀ (edit (·.declare limits name.text k name.offset) name.offset)
      fun _ _ => True := by
  refine .of_edit (Q := fun _ => True) fun d d' _ hd h => ?_
  obtain ⟨hg, hw⟩ := Draft.declare_grows hd hk (name.word hn) h
  exact ⟨hg, hw, trivial⟩

theorem option_keeps (start : Token) :
    Keeps kind limits d₀ (option kind start) fun _ _ => True := by
  refine .draft_bind fun d _ _ => .guard fun _ => .skip fun name => ?_
  refine .bind (Q := fun _ _ => True) (.of_edit fun d d' _ hd h => ?_)
    fun _ _ _ _ => .of_scan fun _ _ _ _ _ _ => trivial
  obtain ⟨hg, hw⟩ := Draft.setOption_grows hd h
  exact ⟨hg, hw, trivial⟩

theorem registersWithin_keeps {k : VariableKind} (hk : k.WellFormed kind limits) (bound : Nat) :
    Keeps kind limits d₀ (registersWithin limits k bound) fun _ _ => True := by
  induction bound generalizing d₀ with
  | zero => exact .skip fun _ => .of_unexpected
  | succ bound ih =>
    refine .scan_bind (Scan.word_gives _) fun name hn => (declare_keeps hn hk).bind ?_
    refine fun _ d₁ _ _ => .skip fun t => ?_
    split
    · exact ih
    · exact .of_pure fun _ _ => trivial
    · exact .of_unexpected

theorem registers_keeps {k : VariableKind} (hk : k.WellFormed kind limits) :
    Keeps kind limits d₀ (registers limits k) fun _ _ => True :=
  .get_bind fun _ => registersWithin_keeps hk _

theorem attrib_keeps : Keeps kind limits d₀ (attrib kind limits) fun _ _ => True := by
  refine .scan_bind (Scan.word_gives _) fun name hn => .skip fun _ => .skip fun root => ?_
  refine .guard_token fun _ => .scan_bind (Scan.inputBinding_gives kind limits root) ?_
  exact fun binding hb => .skip fun _ => declare_keeps hn hb

theorem output_keeps : Keeps kind limits d₀ (output kind limits) fun _ _ => True := by
  refine .scan_bind (Scan.word_gives _) fun name hn => .skip fun _ => .skip fun root => ?_
  refine .guard_token fun _ => .scan_bind (Scan.outputBinding_gives kind limits) ?_
  exact fun binding hb => .skip fun _ => declare_keeps hn hb

theorem secondName_keeps : Keeps kind limits d₀ secondName fun _ _ => True := by
  refine .skip fun name => .skip fun _ => .skip fun target => ?_
  refine (resolve_keeps target).bind fun r _ _ _ => .skip fun _ => ?_
  refine .of_edit (Q := fun _ => True) fun d d' _ hd h => ?_
  obtain ⟨hg, hw⟩ := Draft.nameAlso_grows hd h
  exact ⟨hg, hw, trivial⟩

theorem paramArray_keeps {name : Token} (hn : name.kind = .identifier) :
    Keeps kind limits d₀ (paramArray limits name) fun _ _ => True := by
  have declared {items : List ParamBinding} (h : ∀ b ∈ items, b.WellFormed limits) :
      Keeps kind limits d₀ (do
        if items.isEmpty then refuse .emptyArray name.offset
        edit (·.declare limits name.text (.paramArray items) name.offset) name.offset)
        fun _ _ => True :=
    .guard fun hne => declare_keeps hn ⟨by simpa using hne, h⟩
  refine .skip fun size => .skip fun _ => .skip fun _ => ?_
  refine .scan_bind (Scan.paramItems_gives limits) fun items hitems => .skip fun _ => ?_
  dsimp only
  split
  · refine .guard fun _ => ?_
    exact declared hitems
  · exact .pure_bind (declared hitems)

theorem param_keeps : Keeps kind limits d₀ (param limits) fun _ _ => True := by
  refine .scan_bind (Scan.word_gives _) fun name hn => .skip fun bracket => ?_
  split
  · exact paramArray_keeps hn
  · refine .skip fun _ => .skip fun first => ?_
    refine .scan_bind (Scan.singleParam_gives limits first) fun item hitem => .skip fun _ => ?_
    exact declare_keeps hn hitem

/-! ## Statements -/

theorem statement_keeps (word : Token) :
    Keeps kind limits d₀ (statement kind limits word) fun _ _ => True := by
  have behind {step : Parse Unit} (h : Keeps kind limits d₀ step fun _ _ => True) :
      Keeps kind limits d₀ (do step; return true) fun _ _ => True :=
    h.bind fun _ _ _ _ => .of_pure fun _ _ => trivial
  unfold statement
  dsimp only
  split
  · exact .of_pure fun _ _ => trivial
  · exact behind (option_keeps word)
  · exact behind (registers_keeps trivial)
  · refine .guard fun hkind => ?_
    have hvertex : kind = .vertex := by simpa using hkind
    exact behind (registers_keeps hvertex)
  · exact behind attrib_keeps
  · exact behind param_keeps
  · exact behind output_keeps
  · exact behind secondName_keeps
  · exact behind (instruction_keeps word)

theorem statementHere_keeps :
    Keeps kind limits d₀ (statementHere kind limits) fun _ _ => True := by
  refine .get_bind fun p => ?_
  dsimp only
  split
  · exact .of_refuse
  · exact statement_keeps _
  · exact .of_unexpected

end Parse

/-! ## Programs -/

namespace ProgramReader

/-- A step lets a well-formed draft grow and leaves it well-formed, also when the statement is
refused. -/
theorem step_keeps {r : ProgramReader} (h : r.progress.draft.WellFormed kind limits) :
    r.progress.draft.Grows (r.step kind limits).progress.draft ∧
      (r.step kind limits).progress.draft.WellFormed kind limits := by
  have hs := Parse.statementHere_keeps r.progress (.refl r.progress.draft) h
  unfold step
  split
  · split at hs
    · rename_i b p e
      rw [e]
      cases b
      · exact ⟨hs.1, hs.2.1⟩
      · exact ⟨hs.1, hs.2.1⟩
    · rename_i e
      rw [e]
      exact hs
  · exact ⟨.refl _, h⟩

theorem step_wellFormed {r : ProgramReader} (h : r.progress.draft.WellFormed kind limits) :
    (r.step kind limits).progress.draft.WellFormed kind limits := (step_keeps h).2

theorem runWithin_wellFormed (bound : Nat) {r : ProgramReader}
    (h : r.progress.draft.WellFormed kind limits) :
    (r.runWithin kind limits bound).progress.draft.WellFormed kind limits := by
  induction bound generalizing r with
  | zero => exact h
  | succ bound ih =>
    unfold runWithin
    split
    · exact ih (step_wellFormed h)
    · exact h

theorem run_wellFormed (source : String) (start : Nat) :
    ((ofSource source start).run kind limits).progress.draft.WellFormed kind limits :=
  runWithin_wellFormed _ Draft.wellFormed_empty

theorem eq_of_finish {r : ProgramReader} {m : Model} (h : r.finish kind = .ok m) :
    m = r.progress.draft.toModel kind := by
  unfold finish at h
  split at h
  · cases h
    rfl
  · cases h
  · cases h

end ProgramReader

/-- The program of a text is the draft that the reader leaves. -/
theorem eq_of_readProgram {settings : TranslatorSettings} {source : String} {m : Model}
    (h : readProgram settings source kind = .ok m) :
    ∃ start, m = ((ProgramReader.ofSource source start).run kind
      (settings.limits kind)).progress.draft.toModel kind := by
  unfold readProgram at h
  cases hstart : Header.classify source kind with
  | error e =>
    rw [hstart] at h
    cases h
  | ok start =>
    rw [hstart] at h
    simp only [bind, Except.bind] at h
    split at h
    · cases h
    refine ⟨start, ProgramReader.eq_of_finish ?_⟩
    cases e : ((ProgramReader.ofSource source start).run kind
        (settings.limits kind)).finish kind with
    | error f =>
      rw [e] at h
      cases h
    | ok m' =>
      rw [e] at h
      cases h
      rfl

/-- **A program that is accepted is well-formed.** -/
theorem wellFormed_of_readProgram {settings : TranslatorSettings} {source : String} {m : Model}
    (h : readProgram settings source kind = .ok m) :
    m.kind = kind ∧ m.WellFormed (settings.limits kind) := by
  obtain ⟨start, rfl⟩ := eq_of_readProgram h
  exact ⟨rfl, (ProgramReader.run_wellFormed source start).model⟩

theorem eq_ok_of_toOption {ε α : Type} {x : Except ε α} {a : α} (h : x.toOption = some a) :
    x = .ok a := by
  cases x with
  | error e => cases h
  | ok b => exact congrArg _ (Option.some.inj h)

end ShaderAssembly
