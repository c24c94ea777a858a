import Mathlib.Data.List.Basic
import ShaderAssembly.Proofs.Generation.Instruction
import ShaderAssembly.Proofs.Generation.Layout
import ShaderAssembly.Proofs.Parsing.Characters
import ShaderAssembly.Proofs.Parsing.Program
/-!
# Programs that have a shader

* `declaration_yields`, `handOver_yields`: the variables of a well-formed program are declared and
  handed over without a fault;
* `lines`, `shader_eq`: the lines of the shader of a program without a fault;
* **`translate_of_readProgram`**: a text that can be read has a shader, unless an instruction shifts
  the level of detail of a rectangle.
-/

namespace ShaderAssembly.Glsl

variable {s : Scope} {m : Model} {limits : Limits}

/-! ## Variables -/

theorem mapM_param_yields {kind : ProgramKind} (hs : s.HasGlobals kind limits)
    {items : List ParamBinding} (h : ∀ b ∈ items, b.WellFormed limits) :
    Yields (items.mapM (param kind limits)) fun es =>
      es.length = items.length ∧ ∀ e ∈ es, e.Scoped s := by
  induction items with
  | nil => exact .of_ok ⟨rfl, by simp⟩
  | cons b items ih =>
    rw [List.mapM_cons]
    refine (param_yields hs (h b List.mem_cons_self)).bind fun e he => ?_
    refine (ih fun b hb => h b (List.mem_cons_of_mem _ hb)).bind fun es hes => .of_ok ?_
    exact ⟨by rw [List.length_cons, List.length_cons, hes.1], by simpa using ⟨he, hes.2⟩⟩

/-- The arrays that a variable of a kind is, under its name. -/
def arraysOf (name : String) : VariableKind → List (String × Nat)
  | .paramArray items => [(name, items.length)]
  | _ => []

/-- A line in scope that declares the variable at a place, or no line if it needs none. -/
structure Declares (s : Scope) (m : Model) (i : Nat) (k : VariableKind) (line : Option Line) :
    Prop where
  inScope : ∀ l ∈ line, l.Scoped s
  names : line.map Line.names = if isStored k then some [variableName m i] else none
  arrays : line.toList.flatMap Line.arrays = arraysOf (variableName m i) k

theorem declaration_yields (hm : m.WellFormed limits) (hs : s.HasGlobals m.kind limits)
    {v : Variable} {i : Nat} (hv : m.vars[i]? = some v) :
    Yields (declaration m limits v i) (Declares s m i v.kind) := by
  have hname := variableName_spec hm i
  have hkind := (hm.vars v (List.mem_of_getElem? hv)).kind
  have vec4 {e : Expr} (he : e.Scoped s) :
      ∀ l ∈ some (Line.declare "vec4" (variableName m i) e), l.Scoped s := by
    rintro _ ⟨⟩
    exact ⟨⟨Scope.has_of_plain (by decide), by decide⟩, hname, he⟩
  unfold declaration
  dsimp only
  cases e : v.kind with
  | temporary => exact .of_ok ⟨vec4 Expr.scoped_zeroVector, rfl, rfl⟩
  | address =>
    rw [e] at hkind
    have hvertex : m.kind = .vertex := hkind
    have hhas : s.Has "ARBAddress" := ⟨by decide, fun _ => hs.address hvertex⟩
    rw [hvertex]
    refine .of_ok ⟨?_, rfl, rfl⟩
    rintro _ ⟨⟩
    exact ⟨⟨hhas, by decide⟩, hname, hhas, trivial⟩
  | input b =>
    rw [e] at hkind
    have hb : b.kind = m.kind := hkind
    dsimp only
    rw [if_neg fun h => h hb]
    exact .of_ok ⟨by simp, rfl, rfl⟩
  | param b =>
    rw [e] at hkind
    exact (param_yields hs hkind).bind fun e he => .of_ok ⟨vec4 he, rfl, rfl⟩
  | paramArray items =>
    rw [e] at hkind
    refine (mapM_param_yields hs hkind.2).bind fun es hes => .of_ok ⟨?_, rfl, ?_⟩
    · rintro _ ⟨⟩
      exact ⟨hname, hes.2⟩
    · simp [Line.arrays, arraysOf, hes.1]
  | output b =>
    cases b with
    | pointSize => exact .of_ok ⟨vec4 Expr.scoped_zeroVector, rfl, rfl⟩
    | position | color | texCoord | fogCoord | fragColor | fragDepth =>
      exact .of_ok ⟨by simp, rfl, rfl⟩

theorem handOver_yields (hm : m.WellFormed limits) (hs : s.Covers m) {v : Variable} {i : Nat}
    (hv : m.vars[i]? = some v) :
    Yields (handOver m v i) fun line => ∀ l ∈ line, l.Scoped s ∧ l.names = [] := by
  have hkind := (hm.vars v (List.mem_of_getElem? hv)).kind
  unfold handOver
  cases e : v.kind with
  | output b =>
    rw [e] at hkind
    have hb : b.kind = m.kind := hkind
    dsimp only
    rw [if_neg fun h => h hb]
    split
    · rename_i hsize
      have hk : kindAt m.vars i = some (.output .pointSize) := by
        rw [kindAt, hv, Option.map_some, e, hsize]
      refine .of_ok ?_
      rintro _ ⟨⟩
      refine ⟨⟨Expr.scoped_builtIn (by decide), ?_⟩, rfl⟩
      exact Expr.scoped_field (variableName_scoped hm hs hk rfl) (by decide)
    · exact .of_ok (by simp)
  | temporary | address | input b | param b | paramArray items => exact .of_ok (by simp)

/-! ## Lines -/

/-- The lines of the variables, for each of which `f` gives a line or none. -/
def variableLines (m : Model) (f : Variable → Nat → Except Cause (Option Line)) : List Line :=
  m.vars.zipIdx.filterMap fun (v, i) => (f v i).toOption.join

/-- The lines of the instructions. -/
def statements (m : Model) : List Line := m.instructions.filterMap fun i => (statement m i).toOption

/-- The lines of a shader in which nothing is at fault. -/
def lines (m : Model) (limits : Limits) : List Line :=
  header m limits ++ shadows m ++ variableLines m (declaration m limits) ++ statements m
    ++ variableLines m (handOver m) ++ epilogue m ++ [.closeMain]

theorem variableItems_eq {phase : Phase} {f : Variable → Nat → Except Cause (Option Line)}
    (h : ∀ v i, m.vars[i]? = some v → ∃ line, f v i = .ok line) :
    variableItems m phase f = (variableLines m f).map .ok := by
  rw [variableItems, variableLines, List.map_filterMap]
  refine List.filterMap_congr ?_
  rintro ⟨v, i⟩ hvi
  obtain ⟨line, hline⟩ := h v i (List.mem_zipIdx_iff_getElem?.1 hvi)
  simp only [hline]
  rfl

theorem instructionItems_eq (hm : m.WellFormed limits) (is : List Instruction)
    (his : ∀ i ∈ is, i ∈ m.instructions) (h : ∀ i ∈ is, biasesRectangle i = false) :
    is.map (instructionItem m) = (is.filterMap fun i => (statement m i).toOption).map .ok := by
  rw [List.map_filterMap, ← List.filterMap_eq_map]
  refine List.filterMap_congr ?_
  intro i hi
  obtain ⟨line, hline, -⟩ :=
    statement_yields hm (Scope.all_covers m) (hm.instructions i (his i hi)) (h i hi)
  simp only [Function.comp, instructionItem, hline]
  rfl

theorem declarationItems_eq (hm : m.WellFormed limits) :
    variableItems m .declaration (declaration m limits) =
      (variableLines m (declaration m limits)).map .ok :=
  variableItems_eq fun v i hv => by
    obtain ⟨line, hline, -⟩ := declaration_yields hm (Scope.all_hasGlobals _ _) hv
    exact ⟨line, hline⟩

theorem handOverItems_eq (hm : m.WellFormed limits) :
    variableItems m .postProcess (handOver m) = (variableLines m (handOver m)).map .ok :=
  variableItems_eq fun v i hv => by
    obtain ⟨line, hline, -⟩ := handOver_yields hm (Scope.all_covers m) hv
    exact ⟨line, hline⟩

theorem shader_eq (hm : m.WellFormed limits)
    (h : ∀ i ∈ m.instructions, biasesRectangle i = false) :
    shader m limits = (lines m limits).map .ok := by
  rw [shader, declarationItems_eq hm, handOverItems_eq hm, instructionItems_eq hm _ (fun _ hi => hi) h]
  simp [lines, statements]

/-- Only instructions that shift the level of detail of a rectangle are at fault. -/
theorem eq_of_error_mem_shader (hm : m.WellFormed limits) {fault : Fault}
    (h : .error fault ∈ shader m limits) :
    ∃ i ∈ m.instructions, biasesRectangle i = true ∧
      fault = ⟨.biasedRectangle, .offset i.offset⟩ := by
  have ok (ls : List Line) : Except.error fault ∉ ls.map (Except.ok : Line → Item) := by simp
  rw [shader, declarationItems_eq hm, handOverItems_eq hm] at h
  simp only [List.mem_append, ok, false_or, or_false, List.mem_singleton, reduceCtorEq] at h
  obtain ⟨i, hi, hfault⟩ := List.mem_map.1 h
  cases hrect : biasesRectangle i with
  | false =>
    obtain ⟨line, hline, -⟩ :=
      statement_yields hm (Scope.all_covers m) (hm.instructions i hi) hrect
    rw [instructionItem, hline] at hfault
    cases hfault
  | true =>
    rw [instructionItem, statement_biasedRectangle hm (hm.instructions i hi) hrect] at hfault
    cases hfault
    exact ⟨i, hi, hrect, rfl⟩

/-! ## Whole shaders -/

theorem mapM_ok (ls : List Line) : (ls.map (Except.ok : Line → Item)).mapM id = .ok ls := by
  induction ls with
  | nil => rfl
  | cons l ls ih =>
    rw [List.map_cons, List.mapM_cons, ih]
    rfl

theorem mapM_error (ls : List Line) (fault : Fault) (rest : List Item) :
    (ls.map (Except.ok : Line → Item) ++ .error fault :: rest).mapM id = .error fault := by
  induction ls with
  | nil => rfl
  | cons l ls ih =>
    rw [List.map_cons, List.cons_append, List.mapM_cons, ih]
    rfl

theorem generate_eq_ok (hm : m.WellFormed limits)
    (h : ∀ i ∈ m.instructions, biasesRectangle i = false) :
    generate m limits = .ok (layout 0 (lines m limits)) := by
  rw [generate_eq, shader_eq hm h, mapM_ok]

theorem generate_eq_error (hm : m.WellFormed limits) {before after : List Instruction}
    {i : Instruction} (hsplit : m.instructions = before ++ i :: after)
    (hbefore : ∀ j ∈ before, biasesRectangle j = false) (hi : biasesRectangle i = true) :
    generate m limits = .error (.generation Cause.biasedRectangle.message (.offset i.offset)) := by
  have hmem : i ∈ m.instructions := by simp [hsplit]
  have hitem : instructionItem m i = .error ⟨.biasedRectangle, .offset i.offset⟩ := by
    rw [instructionItem, statement_biasedRectangle hm (hm.instructions i hmem) hi]
    rfl
  have hitems := instructionItems_eq hm before (fun j hj => by simp [hsplit, hj]) hbefore
  have hshader : shader m limits = (header m limits ++ shadows m ++
      variableLines m (declaration m limits) ++
      before.filterMap fun j => (statement m j).toOption).map .ok ++
      .error ⟨.biasedRectangle, .offset i.offset⟩ :: (after.map (instructionItem m) ++
      variableItems m .postProcess (handOver m) ++ (epilogue m).map .ok ++ [.ok .closeMain]) := by
    rw [shader, declarationItems_eq hm, hsplit, List.map_append, List.map_cons, hitems, hitem]
    simp only [List.map_append, List.append_assoc, List.cons_append]
  rw [generate_eq, hshader, mapM_error]
  simp only [Fault.toError]

/-- Whether a well-formed program has a shader depends on the first instruction at fault. -/
theorem generate_spec (hm : m.WellFormed limits) :
    match m.instructions.find? biasesRectangle with
    | none => (∀ i ∈ m.instructions, biasesRectangle i = false) ∧
        generate m limits = .ok (layout 0 (lines m limits))
    | some i => generate m limits =
        .error (.generation Cause.biasedRectangle.message (.offset i.offset)) := by
  cases hfind : m.instructions.find? biasesRectangle with
  | none =>
    have hnone : ∀ i ∈ m.instructions, biasesRectangle i = false := fun i hi => by
      simpa using List.find?_eq_none.1 hfind i hi
    exact ⟨hnone, generate_eq_ok hm hnone⟩
  | some i =>
    obtain ⟨hi, before, after, hsplit, hbefore⟩ := List.find?_eq_some_iff_append.1 hfind
    exact generate_eq_error hm hsplit (fun j hj => by simpa using hbefore j hj) hi

end ShaderAssembly.Glsl

namespace ShaderAssembly

open Glsl

theorem translate_eq {settings : TranslatorSettings} {source : String} {kind : ProgramKind} {m : Model}
    (h : readProgram settings source kind = .ok m) :
    translate settings source kind = generate m (settings.limits kind) := by
  rw [translate, h]
  simp only [bind, Except.bind]

theorem model_of_translate {settings : TranslatorSettings} {source : String} {kind : ProgramKind}
    {text : String} (h : translate settings source kind = .ok text) :
    ∃ m, readProgram settings source kind = .ok m ∧ m.kind = kind ∧
      m.WellFormed (settings.limits kind) ∧ (∀ i ∈ m.instructions, biasesRectangle i = false) ∧
      text = layout 0 (lines m (settings.limits kind)) := by
  cases hread : readProgram settings source kind with
  | error e =>
    rw [translate, hread] at h
    cases h
  | ok m =>
    obtain ⟨hkind, hm⟩ := wellFormed_of_readProgram hread
    have hspec := generate_spec hm
    rw [← translate_eq hread, h] at hspec
    split at hspec
    · exact ⟨m, rfl, hkind, hm, hspec.1, Except.ok.inj hspec.2⟩
    · cases hspec

/-- **A text that can be read has a shader, unless an instruction shifts the level of detail of a
rectangle; the first one that does is then to blame, and nothing else ever is.** -/
theorem translate_of_readProgram {settings : TranslatorSettings} {source : String}
    {kind : ProgramKind} {m : Model} (h : readProgram settings source kind = .ok m) :
    (match m.instructions.find? biasesRectangle with
      | none => ∃ text, translate settings source kind = .ok text
      | some i => translate settings source kind =
          .error (.generation Cause.biasedRectangle.message (.offset i.offset))) ∧
      ∀ fault, .error fault ∈ shader m (settings.limits kind) →
        ∃ i ∈ m.instructions, biasesRectangle i = true ∧
          fault = ⟨.biasedRectangle, .offset i.offset⟩ := by
  obtain ⟨-, hm⟩ := wellFormed_of_readProgram h
  refine ⟨?_, fun fault => eq_of_error_mem_shader hm⟩
  have hspec := generate_spec hm
  rw [translate_eq h]
  split
  · rename_i hfind
    rw [hfind] at hspec
    exact ⟨_, hspec.2⟩
  · rename_i hfind
    rw [hfind] at hspec
    exact hspec

/-- A program the second of whose three instructions is the first to blame. -/
def secondBiased : String :=
  "!!ARBfp1.0\nTEMP a;\nTXB a, fragment.texcoord, texture, 2D;\n" ++
    "TXB a, a, texture[1], RECT;\nTXB a, a, texture[1], RECT;\nEND\n"

theorem translate_secondBiased : translate {} secondBiased .fragment =
    .error (.generation "TXB not supported on RECT textures" (.offset 58)) := by
  have hblame : ((readProgram {} secondBiased .fragment).toOption.bind fun m =>
      m.instructions.find? biasesRectangle).map (·.offset) = some 58 := by
    rw [show secondBiased = String.ofList _ from String.ofList_append.symm,
      toOption_readProgram_ofList]
    decide +kernel
  cases h : readProgram {} secondBiased .fragment with
  | error e =>
    rw [h] at hblame
    cases hblame
  | ok m =>
    rw [h] at hblame
    obtain ⟨i, hi, hoffset⟩ := Option.map_eq_some_iff.1 hblame
    have htranslate := (translate_of_readProgram h).1
    rw [show m.instructions.find? biasesRectangle = some i from hi] at htranslate
    rw [htranslate, hoffset]
    rfl

end ShaderAssembly
