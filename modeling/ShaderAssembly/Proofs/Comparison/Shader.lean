import ShaderAssembly.Proofs.Comparison.Program
import ShaderAssembly.Proofs.Generation.Program
/-!
# Shaders side by side

A shader does not show the places of its program, nor the names of implicit variables, and its
limits show in the sizes of two banks only.

* `SameModel.register`, `SameModel.operand`, `SameModel.statement`: what the instructions of programs
  that are alike compute;
* `SameModel.lines`, **`SameModel.generate`**: the shaders of programs that are alike;
* `Glsl.bankText`, **`Glsl.exists_generate_of_le`**: the shader of a program under higher limits.
-/

namespace ShaderAssembly

open Glsl

variable {Γ : Comparison} {m m' : Model} {limits limits' : Limits}

/-! ## Programs that are alike -/

namespace Comparison.SameModel

theorem var (h : Γ.SameModel m m') (i : Nat) :
    Option.Rel Γ.SameVariable m.vars[i]? m'.vars[i]? := by
  by_cases hi : i < m.vars.length
  · have hi' : i < m'.vars.length := h.vars.length_eq ▸ hi
    rw [List.getElem?_eq_getElem hi, List.getElem?_eq_getElem hi']
    exact .some (h.vars.get hi hi')
  · have hi' : ¬ i < m'.vars.length := h.vars.length_eq ▸ hi
    rw [List.getElem?_eq_none (Nat.le_of_not_lt hi), List.getElem?_eq_none (Nat.le_of_not_lt hi')]
    exact .none

theorem kindAt (h : Γ.SameModel m m') (i : Nat) : kindAt m'.vars i = kindAt m.vars i := by
  have hvar := h.var i
  unfold ShaderAssembly.kindAt
  generalize m.vars[i]? = v, m'.vars[i]? = v' at hvar
  cases hvar with
  | none => rfl
  | some hv => exact congrArg some hv.kind

theorem variableName (h : Γ.SameModel m m') (i : Nat) : variableName m' i = variableName m i := by
  have hvar := h.var i
  unfold Glsl.variableName
  generalize m.vars[i]? = v, m'.vars[i]? = v' at hvar
  cases hvar with
  | none => rfl
  | @some v v' hv =>
    dsimp only
    rw [hv.implicit]
    split
    · rfl
    · rw [hv.name (.inl (by simpa using ‹¬ v.implicit = true›))]

/-! ## Operands -/

theorem readVariable (h : Γ.SameModel m m') {i : Nat} {k : VariableKind}
    (hk : ShaderAssembly.kindAt m.vars i = some k) (hv : k.isVector = true) :
    readVariable m' i = readVariable m i := by
  obtain ⟨v, e, rfl⟩ := Option.map_eq_some_iff.1 hk
  obtain ⟨v', e', hkind⟩ := Option.map_eq_some_iff.1 ((h.kindAt i).trans hk)
  simp only [Glsl.readVariable, variableAt, e, e', bind, Except.bind, hkind, h.variableName]
  cases hvk : v.kind with
  | temporary | input b | param b => rfl
  | address | paramArray items | output b =>
    rw [hvk] at hv
    cases hv

theorem writeVariable (h : Γ.SameModel m m') {i : Nat} {k : VariableKind}
    (hk : ShaderAssembly.kindAt m.vars i = some k) (hw : k.isWritable = true) :
    writeVariable m' i = writeVariable m i := by
  obtain ⟨v, e, rfl⟩ := Option.map_eq_some_iff.1 hk
  obtain ⟨v', e', hkind⟩ := Option.map_eq_some_iff.1 ((h.kindAt i).trans hk)
  simp only [Glsl.writeVariable, variableAt, e, e', bind, Except.bind, hkind, h.variableName]
  cases hvk : v.kind with
  | temporary => rfl
  | output b =>
    cases b with
    | pointSize => simp only [output, h.variableName]
    | _ => rfl
  | address | input b | param b | paramArray items =>
    rw [hvk] at hw
    cases hw

theorem register (h : Γ.SameModel m m') {r : Register} (hr : r.WellFormed m.kind m.vars) :
    register m' r = register m r := by
  cases r with
  | whole i =>
    obtain ⟨k, hk, hv⟩ := hr
    exact h.readVariable hk hv
  | element i n => rw [Glsl.register, Glsl.register, h.variableName]
  | relative i addr offset =>
    simp only [Glsl.register, relativePlace, h.variableName]
  | literal v => rfl

theorem vectorSource (h : Γ.SameModel m m') {s : Source} (hs : s.register.WellFormed m.kind m.vars) :
    vectorSource m' s = vectorSource m s := by
  rw [Glsl.vectorSource, h.register hs, Glsl.vectorSource]

theorem scalarSource (h : Γ.SameModel m m') {s : Source} (hs : s.register.WellFormed m.kind m.vars) :
    scalarSource m' s = scalarSource m s := by
  rw [Glsl.scalarSource, h.register hs, Glsl.scalarSource]

theorem sourceAt_bind {α : Type} {i : Instruction} (n : Nat) {f f' : Source → Except Glsl.Cause α}
    (h : ∀ s ∈ i.sources, f' s = f s) : (sourceAt i n >>= f') = (sourceAt i n >>= f) := by
  unfold sourceAt
  split
  · exact h _ (List.mem_of_getElem? ‹_›)
  · rfl

variable {i : Instruction}

theorem operand (h : Γ.SameModel m m') (hi : i.WellFormed limits m) (n : Nat) :
    operand m' i n = operand m i n := by
  refine sourceAt_bind n fun s hs => ?_
  have hs := (hi.sources s hs).register
  rw [h.scalarSource hs, h.vectorSource hs]

theorem value (h : Γ.SameModel m m') (hi : i.WellFormed limits m) : value m' i = value m i := by
  have src : Glsl.operand m' i = Glsl.operand m i := funext fun n => h.operand hi n
  have swz (e : ExtendedSwizzle) :
      (sourceAt i 0 >>= fun s => extended m' e s) = (sourceAt i 0 >>= fun s => extended m e s) :=
    sourceAt_bind 0 fun s hs => by
      rw [extended, h.register (hi.sources s hs).register, extended]
  simp only [Glsl.value, src, swz]

theorem destinationOf_bind {α : Type} {f f' : Destination → Except Glsl.Cause α}
    (h : ∀ d ∈ i.destination, f' d = f d) : (destinationOf i >>= f') = (destinationOf i >>= f) := by
  unfold destinationOf
  split
  · exact h _ ‹_›
  · rfl

theorem statement (h : Γ.SameModel m m') (hi : i.WellFormed limits m) :
    statement m' i = statement m i := by
  unfold Glsl.statement
  split
  · exact sourceAt_bind 0 fun s hs => by rw [h.vectorSource (hi.sources s hs).register]
  · refine bind_congr fun d => ?_
    rw [show (m'.vars[d.var]?).map (·.kind) = (m.vars[d.var]?).map (·.kind) from h.kindAt d.var,
      h.variableName]
    have computed : (do
        let a ← Glsl.scalarSource m' (← sourceAt i 0)
        return Line.assign (.field (.name (Glsl.variableName m d.var)) "x")
          (.call1 "int" (.call1 "floor" a)) : Except Glsl.Cause Line) = (do
        let a ← Glsl.scalarSource m (← sourceAt i 0)
        return Line.assign (.field (.name (Glsl.variableName m d.var)) "x")
          (.call1 "int" (.call1 "floor" a))) :=
      sourceAt_bind 0 fun s hs => by rw [h.scalarSource (hi.sources s hs).register]
    dsimp only
    rw [computed]
  · rename_i hkil harl
    refine destinationOf_bind fun d hd => ?_
    obtain ⟨-, k, hk, hw, -⟩ := destination_spec harl (hi.destination d hd)
    rw [h.writeVariable hk hw, h.value hi]

/-! ## Lines -/

theorem declaration_toOption (h : Γ.SameModel m m') {v v' : Variable} (hv : Γ.SameVariable v v')
    (i : Nat) :
    (declaration m' limits v' i).toOption = (declaration m limits v i).toOption := by
  unfold declaration
  rw [h.variableName, hv.kind, h.kind]
  dsimp only
  split
  case h_2 => split <;> rfl
  case h_3 => split <;> rfl
  all_goals rfl

theorem handOver_toOption (h : Γ.SameModel m m') {v v' : Variable} (hv : Γ.SameVariable v v')
    (i : Nat) : (handOver m' v' i).toOption = (handOver m v i).toOption := by
  unfold handOver
  rw [h.variableName, hv.kind, h.kind]
  dsimp only
  split
  · split <;> rfl
  · rfl

theorem variableLines (h : Γ.SameModel m m') {f f' : Variable → Nat → Except Glsl.Cause (Option Line)}
    (hf : ∀ v v', Γ.SameVariable v v' → ∀ i, (f' v' i).toOption = (f v i).toOption) :
    variableLines m' f' = variableLines m f := by
  have from' {vs vs' : List Variable} (hvs : List.Forall₂ Γ.SameVariable vs vs') (n : Nat) :
      (vs'.zipIdx n).filterMap (fun e => (f' e.1 e.2).toOption.join) =
        (vs.zipIdx n).filterMap (fun e => (f e.1 e.2).toOption.join) := by
    induction hvs generalizing n with
    | nil => rfl
    | cons hv _ ih =>
      simp only [List.zipIdx_cons, List.filterMap_cons, hf _ _ hv, ih]
  exact from' h.vars 0

theorem statements (h : Γ.SameModel m m') (hm : m.WellFormed limits) :
    statements m' = statements m := by
  have of_wellFormed {is is' : List Instruction} (his : List.Forall₂ Γ.SameInstruction is is')
      (hwf : ∀ i ∈ is, i.WellFormed limits m) :
      is'.filterMap (fun i => (Glsl.statement m' i).toOption) =
        is.filterMap (fun i => (Glsl.statement m i).toOption) := by
    induction his with
    | nil => rfl
    | @cons i i' is is' hi _ ih =>
      obtain ⟨offset, rfl, -⟩ := hi
      have hline : Glsl.statement m' { i with offset } = Glsl.statement m i := by
        change Glsl.statement m' i = _
        exact h.statement (hwf i List.mem_cons_self)
      rw [List.filterMap_cons, List.filterMap_cons, hline,
        ih fun j hj => hwf j (List.mem_cons_of_mem _ hj)]
  exact of_wellFormed h.instructions hm.instructions

/-- **Programs that are alike have the same lines.** -/
theorem lines (h : Γ.SameModel m m') (hm : m.WellFormed limits) : lines m' limits = lines m limits := by
  simp only [Glsl.lines, header, shadows, epilogue, h.kind, h.special, h.samplers, h.statements hm,
    h.variableLines fun _ _ hv => h.declaration_toOption hv,
    h.variableLines fun _ _ hv => h.handOver_toOption hv]

theorem find? (h : Γ.SameModel m m') : Option.Rel Γ.SameInstruction
    (m.instructions.find? biasesRectangle) (m'.instructions.find? biasesRectangle) := by
  have his := h.instructions
  generalize m.instructions = is, m'.instructions = is' at his
  induction his with
  | nil => exact .none
  | @cons i i' is is' hi _ ih =>
    have hsame : biasesRectangle i' = biasesRectangle i := by
      obtain ⟨offset, rfl, -⟩ := hi
      rfl
    rw [List.find?_cons, List.find?_cons, hsame]
    split
    · exact .some hi
    · exact ih

/-- **Programs that are alike have one shader, or are at fault for one reason at words that
correspond.** -/
theorem generate (h : Γ.SameModel m m') (hm : m.WellFormed limits) (hm' : m'.WellFormed limits) :
    (∃ text, generate m limits = .ok text ∧ generate m' limits = .ok text) ∨
      ∃ reason byte byte', generate m limits = .error (.generation reason (.offset byte)) ∧
        generate m' limits = .error (.generation reason (.offset byte')) ∧ Γ.word byte byte' := by
  have hspec := generate_spec hm
  have hspec' := generate_spec hm'
  have hfind := h.find?
  generalize m.instructions.find? biasesRectangle = fault,
    m'.instructions.find? biasesRectangle = fault' at hspec hspec' hfind
  cases hfind with
  | none =>
    rw [h.lines hm] at hspec'
    exact .inl ⟨_, hspec.2, hspec'.2⟩
  | some hi =>
    obtain ⟨offset, rfl, hword⟩ := hi
    exact .inr ⟨_, _, _, hspec, hspec', hword⟩

end Comparison.SameModel

/-! ## Higher limits -/

namespace Glsl

/-- The lines of a program's banks of parameters. -/
def banks (kind : ProgramKind) (limits : Limits) : List Line :=
  [.bank (envName kind) limits.maxEnvParams, .bank (localName kind) limits.maxLocalParams]

/-- The text of the banks, which shows their sizes. -/
def bankText (kind : ProgramKind) (limits : Limits) : String :=
  (Line.bank (envName kind) limits.maxEnvParams).text ++ "\n" ++
    (Line.bank (localName kind) limits.maxLocalParams).text ++ "\n"

/-- The lines before the banks. -/
def preamble (m : Model) : List Line :=
  [.version]
  ++ (if m.samplers.values.contains .rect then [.rectangleExtension] else [])
  ++ (if m.kind = .vertex then [.addressType] else [])

/-- The lines behind the banks. -/
def remainder (m : Model) (limits : Limits) : List Line :=
  m.samplers.toList.map (fun (unit, target) => .sampler (samplerType target) (samplerName unit))
    ++ .openMain :: (shadows m ++ variableLines m (declaration m limits) ++ statements m
    ++ variableLines m (handOver m) ++ epilogue m ++ [.closeMain])

theorem lines_banks (m : Model) (limits : Limits) :
    lines m limits = preamble m ++ banks m.kind limits ++ remainder m limits := by
  simp [lines, header, preamble, banks, remainder]

theorem layout_append (n : Nat) (ls ls' : List Line) :
    layout n (ls ++ ls') = layout n ls ++ layout (ls.foldl Line.depthBehind n) ls' := by
  induction ls generalizing n with
  | nil => simp [layout]
  | cons l ls ih => simp only [List.cons_append, layout, ih, List.foldl_cons, String.append_assoc]

/-- Nothing before the banks stands in, and neither do they. -/
theorem layout_lines (m : Model) (limits : Limits) : layout 0 (lines m limits) =
    layout 0 (preamble m) ++ bankText m.kind limits ++ layout 0 (remainder m limits) := by
  have hpreamble : (preamble m).foldl Line.depthBehind 0 = 0 := by
    unfold preamble
    split <;> split <;> rfl
  have hbanks : (banks m.kind limits).foldl Line.depthBehind 0 = 0 := rfl
  have htext : layout 0 (banks m.kind limits) = bankText m.kind limits := by
    simp [banks, layout, Line.laidOut, Line.depth, Line.depthBehind, marginText, bankText,
      String.append_assoc]
  rw [lines_banks, layout_append, layout_append, List.foldl_append, hpreamble, hbanks, htext]

theorem param_of_le (h : limits ≤ limits') {b : ParamBinding} (hb : b.WellFormed limits)
    (kind : ProgramKind) : param kind limits' b = param kind limits b := by
  cases b with
  | constant v => rfl
  | state b => rfl
  | env n =>
    have hn : n < limits.maxEnvParams := hb
    rw [param, param, if_pos hn, if_pos (Nat.lt_of_lt_of_le hn h.maxEnvParams)]
  | localParam n =>
    have hn : n < limits.maxLocalParams := hb
    rw [param, param, if_pos hn, if_pos (Nat.lt_of_lt_of_le hn h.maxLocalParams)]

theorem mapM_param_of_le (h : limits ≤ limits') {items : List ParamBinding}
    (hitems : ∀ b ∈ items, b.WellFormed limits) (kind : ProgramKind) :
    items.mapM (param kind limits') = items.mapM (param kind limits) := by
  induction items with
  | nil => rfl
  | cons b items ih =>
    rw [List.mapM_cons, List.mapM_cons, param_of_le h (hitems b List.mem_cons_self),
      ih fun b hb => hitems b (List.mem_cons_of_mem _ hb)]

/-- The declaration of a parameter inside the banks does not show how large these are. -/
theorem declaration_of_le (h : limits ≤ limits') {v : Variable}
    (hv : v.kind.WellFormed m.kind limits) (i : Nat) :
    declaration m limits' v i = declaration m limits v i := by
  unfold declaration
  cases e : v.kind with
  | param b =>
    rw [e] at hv
    dsimp only
    rw [param_of_le h hv]
  | paramArray items =>
    rw [e] at hv
    dsimp only
    rw [mapM_param_of_le h hv.2]
  | output b => cases b <;> rfl
  | _ => rfl

theorem remainder_of_le (h : limits ≤ limits') (hm : m.WellFormed limits) :
    remainder m limits' = remainder m limits := by
  have hlines : variableLines m (declaration m limits') = variableLines m (declaration m limits) := by
    refine List.filterMap_congr ?_
    rintro ⟨v, i⟩ hvi
    have hv := List.mem_of_getElem? (List.mem_zipIdx_iff_getElem?.1 hvi)
    dsimp only
    rw [declaration_of_le h (hm.vars v hv).kind]
  rw [remainder, remainder, hlines]

/-- **Under higher limits a program has the same shader but for the sizes of the banks, or the same
fault.** -/
theorem exists_generate_of_le (h : limits ≤ limits') (hm : m.WellFormed limits)
    (hm' : m.WellFormed limits') :
    (∃ before after, generate m limits = .ok (before ++ bankText m.kind limits ++ after) ∧
      generate m limits' = .ok (before ++ bankText m.kind limits' ++ after)) ∨
    ∃ e, generate m limits = .error e ∧ generate m limits' = .error e := by
  have hspec := generate_spec hm
  have hspec' := generate_spec hm'
  cases hfind : m.instructions.find? biasesRectangle with
  | none =>
    rw [hfind] at hspec hspec'
    refine .inl ⟨layout 0 (preamble m), layout 0 (remainder m limits), ?_, ?_⟩
    · rw [hspec.2, layout_lines]
    · rw [hspec'.2, layout_lines, remainder_of_le h hm]
  | some i =>
    rw [hfind] at hspec hspec'
    exact .inr ⟨_, hspec, hspec'⟩

end Glsl

end ShaderAssembly
