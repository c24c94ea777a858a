import ShaderAssembly.Proofs.Meaning.Run
/-!
# Point sizes

* `sizeAfter`: the point size that instructions leave, however each of them names it;
* `sizeAfter_eq`: it is in the variable by which it was written last;
* `handOvers_exec`: a shader hands over all variables of the point size, one after the other;
* **`pointSize_of_readProgram`**: what arrives is in the variable that is handed over last, which is
  right if the program writes no other.
-/

namespace ShaderAssembly

variable {K : Type} [Field K] [LinearOrder K] {B : Builtins K} {m : Model} {limits : Limits}
  {M M' : Machine K} {i : Instruction}

/-! ## Point sizes of programs -/

/-- The variable by which an instruction writes the first component of the point size. -/
def Instruction.sizeVar (m : Model) (i : Instruction) : Option Nat :=
  match i.destination with
  | some d =>
    if kindAt m.vars d.var = some (.output .pointSize) ∧ d.mask.x = true then some d.var else none
  | none => none

/-- **The point size that instructions leave**, by whatever variables they write it; a program has
only one. There is none before the first of them. -/
def sizeAfter (B : Builtins K) (m : Model) : Machine K → List Instruction → Option K → Option K
  | _, [], x => x
  | M, i :: is, x =>
    match i.effect B M m with
    | some M' => sizeAfter B m M' is (if (i.sizeVar m).isSome then some (i.saturated B M m .x) else x)
    | none => x

/-- The variable by which instructions write the point size last. -/
def lastSizeVar (m : Model) : List Instruction → Option Nat → Option Nat
  | [], w => w
  | i :: is, w => lastSizeVar m is ((i.sizeVar m).or w)

theorem sizeVar_spec {v : Nat} (h : i.sizeVar m = some v) :
    ∃ d, i.destination = some d ∧ d.var = v ∧ kindAt m.vars v = some (.output .pointSize) := by
  unfold Instruction.sizeVar at h
  split at h
  · rename_i d hd
    split at h
    · rename_i hsize
      cases h
      exact ⟨d, hd, rfl, hsize.1⟩
    · cases h
  · cases h

theorem kindAt_of_sizeVar {v : Nat} (h : i.sizeVar m = some v) :
    kindAt m.vars v = some (.output .pointSize) := by
  obtain ⟨d, -, -, hv⟩ := sizeVar_spec h
  exact hv

theorem mem_of_lastSizeVar {is : List Instruction} {w : Option Nat} {v : Nat}
    (h : lastSizeVar m is w = some v) : (∃ i ∈ is, i.sizeVar m = some v) ∨ w = some v := by
  induction is generalizing w with
  | nil => exact .inr h
  | cons i is ih =>
    rcases ih h with ⟨j, hj, hsize⟩ | hw
    · exact .inl ⟨j, List.mem_cons_of_mem _ hj, hsize⟩
    · rcases Option.or_eq_some_iff.1 hw with hsize | ⟨-, hw⟩
      · exact .inl ⟨i, List.mem_cons_self, hsize⟩
      · exact .inr hw

omit [Field K] [LinearOrder K] in
theorem vectors_put_of_ne {var w : Nat} (h : w ≠ var) (v : Vec4 K) :
    (M.put m var v).vectors w = M.vectors w := by
  unfold Machine.put
  split
  · exact Function.update_of_ne h _ _
  · exact Function.update_of_ne h _ _
  · rfl
  · rfl

theorem vectors_effect (hi : i.WellFormed limits m) (h : i.effect B M m = some M') {v : Nat}
    (hv : kindAt m.vars v = some (.output .pointSize)) :
    M'.vectors v .x = if i.sizeVar m = some v then i.saturated B M m .x else M.vectors v .x := by
  by_cases hkil : i.opcode = .kil
  · have hd : i.destination = none := by
      rw [← Option.not_isSome_iff_eq_none, hi.destination_isSome, hkil]
      decide
    rw [Instruction.effect, hkil] at h
    dsimp only at h
    split at h
    · cases h
    · cases h
      have hnone : i.sizeVar m = none := by rw [Instruction.sizeVar, hd]
      rw [if_neg (by simp [hnone])]
  obtain ⟨d, hd⟩ := Option.isSome_iff_exists.1
    (hi.destination_isSome.trans (Glsl.hasDestination_of_ne_kil hkil))
  by_cases harl : i.opcode = .arl
  · obtain ⟨k, hk, -, hw⟩ := hi.destination d hd
    rw [if_pos harl] at hw
    obtain ⟨rfl, -⟩ := hw
    rw [Instruction.effect, harl, hd] at h
    cases h
    rw [if_neg (by simp [Instruction.sizeVar, hd, hk])]
    rfl
  rw [Glsl.effect_eq_write ⟨harl, hkil⟩ hd] at h
  cases h
  by_cases hvar : v = d.var
  · subst hvar
    have hself (new : Vec4 K) : (M.put m d.var new).vectors d.var = new := by
      rw [Machine.put, hv]
      exact Function.update_self _ _ _
    have htarget : M.target m d.var = M.vectors d.var := by rw [Machine.target, hv]
    rw [Machine.write, hself, htarget, WriteMask.merge, Instruction.sizeVar, hd]
    by_cases hx : d.mask.x = true <;> simp [hv, WriteMask.contains, hx]
  · rw [Machine.write, vectors_put_of_ne hvar, if_neg]
    rw [Instruction.sizeVar, hd]
    dsimp only
    split
    · exact fun h => hvar (Option.some.inj h).symm
    · intro h
      cases h

/-- **The point size is in the variable by which it was written last.** -/
theorem sizeAfter_eq {is : List Instruction} {r : Option (Machine K)} (h : Runs B m M is r)
    (hr : r = some M') (his : ∀ i ∈ is, i.WellFormed limits m) {x : Option K} {w : Option Nat}
    (hw : ∀ v ∈ w, kindAt m.vars v = some (.output .pointSize))
    (hx : x = w.map fun v => M.vectors v .x) :
    sizeAfter B m M is x = (lastSizeVar m is w).map fun v => M'.vectors v .x := by
  induction h generalizing x w with
  | done M =>
    cases hr
    exact hx
  | discard => cases hr
  | @step M M₁ i is r hrange heffect _ ih =>
    have hi := his i List.mem_cons_self
    rw [sizeAfter, heffect, lastSizeVar]
    refine ih hr (fun j hj => his j (List.mem_cons_of_mem _ hj)) ?_ ?_
    · intro v hv
      cases hsize : i.sizeVar m with
      | some u =>
        rw [hsize] at hv
        cases hv
        exact kindAt_of_sizeVar hsize
      | none =>
        rw [hsize] at hv
        exact hw v hv
    · cases hsize : i.sizeVar m with
      | some u =>
        have hvector := vectors_effect hi heffect (kindAt_of_sizeVar hsize)
        rw [if_pos hsize] at hvector
        simp [hvector]
      | none =>
        have hframe (v) (hv : v ∈ w) : M₁.vectors v .x = M.vectors v .x := by
          rw [vectors_effect hi heffect (hw v hv), if_neg (by rw [hsize]; exact nofun)]
        cases w with
        | none => exact hx
        | some v => simp [hx, hframe v rfl]

namespace Glsl

/-! ## Results at the end -/

/-- The places of the variables that stand for the point size. -/
def sizeVars (m : Model) : List Nat :=
  m.vars.zipIdx.filterMap fun (v, i) => if v.kind = .output .pointSize then some i else none

/-- The line that hands over the point size that a variable holds. -/
def handOverSize (m : Model) (i : Nat) : Line :=
  .assign (.name "gl_PointSize") (.field (.name (variableName m i)) "x")

/-- The lines of `main` behind the declarations. -/
def body (m : Model) : List Line :=
  statements m ++ variableLines m (handOver m) ++ epilogue m ++ [.closeMain]

theorem mem_sizeVars {v : Nat} :
    v ∈ sizeVars m ↔ kindAt m.vars v = some (.output .pointSize) := by
  constructor
  · intro h
    obtain ⟨⟨w, j⟩, hw, hsize⟩ := List.mem_filterMap.1 h
    dsimp only at hsize
    split at hsize
    · rename_i hk
      cases hsize
      rw [kindAt, List.mem_zipIdx_iff_getElem?.1 hw, Option.map_some, hk]
    · cases hsize
  · intro h
    obtain ⟨w, hw, hk⟩ := Option.map_eq_some_iff.1 h
    exact List.mem_filterMap.2 ⟨(w, v), List.mem_zipIdx_iff_getElem?.2 hw, if_pos hk⟩

theorem handOvers_eq (hm : m.WellFormed limits) :
    variableLines m (handOver m) = (sizeVars m).map (handOverSize m) := by
  rw [variableLines, sizeVars, List.map_filterMap]
  refine List.filterMap_congr ?_
  rintro ⟨v, i⟩ hvi
  have hkind := (hm.vars v (List.mem_of_getElem? (List.mem_zipIdx_iff_getElem?.1 hvi))).kind
  dsimp only [handOver]
  cases e : v.kind with
  | output b =>
    rw [e] at hkind
    have hb : b.kind = m.kind := hkind
    dsimp only
    rw [if_neg fun h => h hb]
    cases b <;> rfl
  | temporary | address | input b | param b | paramArray items => rfl

theorem assign_name_exec {σ : Store K} {n : String} {e : Expr} {cs : List K}
    (he : e.eval B σ = some (.reals cs)) (hn : σ.HasVector n cs.length) :
    (Line.assign (.name n) e).exec B σ = some (.running (σ.set n (.reals cs))) := by
  obtain ⟨old, hold, hlength⟩ := hn
  exact Line.exec_assign_of he (Expr.write_name_of hold (by simp [Value.sameType, hlength]))

/-- **The point size that arrives is in the variable that is handed over last.** -/
theorem handOvers_exec {is : List Nat} {σ : Store K}
    (hM : ∀ i ∈ is, σ (variableName m i) = some (.vec4 (M.vectors i)))
    (hsize : σ.HasVector "gl_PointSize" 1) :
    ∃ σ', execLines B σ (is.map (handOverSize m)) = some (.running σ') ∧
      (∀ n, n ≠ "gl_PointSize" → σ' n = σ n) ∧
      ∀ v, is.getLast? = some v → σ' "gl_PointSize" = some (.reals [M.vectors v .x]) := by
  induction is generalizing σ with
  | nil => exact ⟨σ, rfl, fun _ _ => rfl, nofun⟩
  | cons i is ih =>
    have hvalue : (Expr.field (.name (variableName m i)) "x").eval B σ =
        some (.reals [M.vectors i .x]) := by
      rw [Expr.eval_field, Expr.eval_name, hM i List.mem_cons_self]
      exact select_vec4 (M.vectors i) [.x]
    have hline := assign_name_exec (B := B) hvalue hsize
    obtain ⟨σ', hexec, hframe, hlast⟩ := ih
      (σ := σ.set "gl_PointSize" (.reals [M.vectors i .x]))
      (fun j hj => by
        have hne : variableName m j ≠ "gl_PointSize" :=
          (resultName_ne_variableName m j .pointSize).symm
        rw [Store.set_ne _ _ hne]
        exact hM j (List.mem_cons_of_mem _ hj))
      ⟨_, Store.set_self _ _ _, rfl⟩
    refine ⟨σ', ?_, fun n hn => ?_, fun v hv => ?_⟩
    · rw [List.map_cons, execLines, handOverSize, hline]
      exact hexec
    · rw [hframe n hn, Store.set_ne _ _ hn]
    · cases is with
      | nil =>
        cases hv
        cases hexec
        exact Store.set_self _ _ _
      | cons j is => exact hlast v hv

/-! ## Whole programs -/

omit [Field K] [LinearOrder K] in
theorem Store.HasVector.vec4 {σ : Store K} {n : String} (h : σ.HasVector n 4) :
    ∃ v, σ n = some (.vec4 v) := by
  obtain ⟨cs, hcs, hlength⟩ := h
  match cs, hlength with
  | [x, y, z, w], _ => exact ⟨.of x y z w, hcs⟩

/-- A store in which `main` can run: what the language and the first lines of `main` declare has its
type. -/
structure Ready (m : Model) (σ : Store K) : Prop where
  pointSize : σ.HasVector "gl_PointSize" 1
  fogFragCoord : σ.HasVector "gl_FogFragCoord" 1
  position : σ.HasVector "gl_Position" 4
  fogCoord : m.special.writesFogCoord = true → σ.HasVector fogCoordName 4

theorem Ready.execLines {σ σ' : Store K} {ls : List Line} (h : Ready m σ)
    (hexec : execLines B σ ls = some (.running σ')) : Ready m σ' where
  pointSize := execLines_hasVector hexec h.pointSize
  fogFragCoord := execLines_hasVector hexec h.fogFragCoord
  position := execLines_hasVector hexec h.position
  fogCoord hfog := execLines_hasVector hexec (h.fogCoord hfog)

theorem epilogue_exec {σ : Store K} (hkind : m.kind = .vertex) (h : Ready m σ) :
    ∃ σ', execLines B σ (epilogue m) = some (.running σ') ∧
      σ' "gl_PointSize" = σ "gl_PointSize" := by
  have fog : ∃ σ', execLines B σ (if m.special.writesFogCoord then
      [.assign (.name "gl_FogFragCoord") (.field (.name fogCoordName) "x")] else []) =
        some (.running σ') ∧ σ' "gl_PointSize" = σ "gl_PointSize" := by
    cases hfog : m.special.writesFogCoord with
    | false => exact ⟨σ, rfl, rfl⟩
    | true =>
      obtain ⟨v, hv⟩ := (h.fogCoord hfog).vec4
      have hvalue : (Expr.field (.name fogCoordName) "x").eval B σ = some (.reals [v .x]) := by
        rw [Expr.eval_field, Expr.eval_name, hv]
        exact select_vec4 v [.x]
      refine ⟨σ.set "gl_FogFragCoord" (.reals [v .x]), ?_, Store.set_ne _ _ (by decide)⟩
      rw [if_pos rfl, execLines, assign_name_exec (B := B) hvalue h.fogFragCoord]
      rfl
  obtain ⟨σ', hfog, hsize⟩ := fog
  rw [epilogue, hkind]
  dsimp only
  rw [execLines_append hfog]
  cases m.special.positionInvariant with
  | false => exact ⟨σ', rfl, hsize⟩
  | true =>
    have hvalue : (Expr.call0 "ftransform").eval B σ' = some (.vec4 B.fixedPosition) :=
      Denotes.call_name (f := .ftransform) (by decide) []
    refine ⟨σ'.set "gl_Position" (.vec4 B.fixedPosition), ?_,
      (Store.set_ne _ _ (by decide)).trans hsize⟩
    rw [if_pos rfl, execLines,
      assign_name_exec (B := B) hvalue (execLines_hasVector hfog h.position)]
    rfl

/-- Every point size that a program writes is written to the variable of the shader that is handed
over last. -/
def SharesSize (m : Model) : Prop :=
  ∀ i ∈ m.instructions, ∀ d ∈ i.destination, kindAt m.vars d.var = some (.output .pointSize) →
    ∃ target, writeVariable m d.var = .ok target ∧
      (variableLines m (handOver m)).getLast? =
        some (.assign (.name "gl_PointSize") (.field target "x"))

theorem sharesSize_iff (hm : m.WellFormed limits) :
    SharesSize m ↔ ∀ i ∈ m.instructions, ∀ d ∈ i.destination,
      kindAt m.vars d.var = some (.output .pointSize) → (sizeVars m).getLast? = some d.var := by
  have htarget {v : Nat} (hv : kindAt m.vars v = some (.output .pointSize)) :
      writeVariable m v = .ok (.name (variableName m v)) := by
    obtain ⟨w, hw, hk⟩ := Option.map_eq_some_iff.1 hv
    simp only [writeVariable, variableAt, hw, bind, Except.bind, hk]
    rfl
  have hlast {v : Nat} (hv : kindAt m.vars v = some (.output .pointSize)) :
      (variableLines m (handOver m)).getLast? = some (handOverSize m v) ↔
        (sizeVars m).getLast? = some v := by
    rw [handOvers_eq hm, List.getLast?_map, Option.map_eq_some_iff]
    constructor
    · rintro ⟨u, hu, hline⟩
      have hname : variableName m u = variableName m v := by
        simpa [handOverSize] using hline
      rw [hu, variableName_injective hm hname]
    · exact fun h => ⟨v, h, rfl⟩
  refine forall₂_congr fun i hi => forall₃_congr fun d hd hv => ?_
  rw [← hlast hv, htarget hv]
  constructor
  · rintro ⟨target, htarget, hline⟩
    cases htarget
    exact hline
  · exact fun hline => ⟨_, rfl, hline⟩

section Body

variable [IsStrictOrderedRing K]

/-- What arrives as the point size is in the variable that is handed over last. -/
theorem body_exec (hm : m.WellFormed limits) (hkind : m.kind = .vertex)
    (hrect : ∀ i ∈ m.instructions, biasesRectangle i = false) {σ : Store K}
    (h : Runs B m M m.instructions (some M')) (hM : Represents m M σ) (hready : Ready m σ) :
    ∃ σ', execLines B σ (body m) = some (.running σ') ∧
      ∀ v, (sizeVars m).getLast? = some v → σ' "gl_PointSize" = some (.reals [M'.vectors v .x]) := by
  have hstatements := statements_exec (B := B) hm h hM fun i hi => ⟨hm.instructions i hi, hrect i hi⟩
  obtain ⟨hnone, -⟩ | ⟨M₁, σ₁, hsome, hM₁, hexec₁⟩ := hstatements
  · cases hnone
  cases hsome
  have hsizes : ∀ v ∈ sizeVars m, σ₁ (variableName m v) = some (.vec4 (M'.vectors v)) :=
    fun v hv => hM₁.vars v _ (mem_sizeVars.1 hv)
  obtain ⟨σ₂, hexec₂, -, hlast⟩ :=
    handOvers_exec (B := B) hsizes (hready.execLines hexec₁).pointSize
  rw [← handOvers_eq hm] at hexec₂
  obtain ⟨σ₃, hexec₃, hsize⟩ :=
    epilogue_exec (B := B) hkind ((hready.execLines hexec₁).execLines hexec₂)
  refine ⟨σ₃, ?_, fun v hv => hsize.trans (hlast v hv)⟩
  rw [body, List.append_assoc, List.append_assoc, statements, execLines_append hexec₁,
    execLines_append hexec₂, execLines_append hexec₃]
  rfl

end Body

end Glsl

open Glsl

/-- **What arrives as the point size of a vertex program is in the variable that is handed over
last. It is the point size that the program leaves exactly if the variable by which the program
writes it last holds the same, and always if the program writes it by no other variable.** -/
theorem pointSize_of_readProgram [IsStrictOrderedRing K] (B : Builtins K)
    {settings : TranslatorSettings} {source : String} {m : Model}
    (h : readProgram settings source .vertex = .ok m) :
    (∃ opening, translate settings source .vertex = .ok (layout 0 (opening ++ body m))) ∧
    (SharesSize m ↔ ∀ i ∈ m.instructions, ∀ d ∈ i.destination,
      kindAt m.vars d.var = some (.output .pointSize) → (sizeVars m).getLast? = some d.var) ∧
    ∀ M M' σ, Represents m M σ → Ready m σ → Runs B m M m.instructions (some M') →
      ∃ τ, execLines B σ (body m) = some (.running τ) ∧
        ∀ x, sizeAfter B m M m.instructions none = some x →
          ∃ last written, (sizeVars m).getLast? = some last ∧
            lastSizeVar m m.instructions none = some written ∧
            (τ "gl_PointSize" = some (.reals [x]) ↔ M'.vectors last .x = M'.vectors written .x) ∧
            (SharesSize m → τ "gl_PointSize" = some (.reals [x])) := by
  obtain ⟨hkind, hm⟩ := wellFormed_of_readProgram h
  have hrect : ∀ i ∈ m.instructions, biasesRectangle i = false := by
    intro i hi
    have havailable := (hm.instructions i hi).available
    rw [hkind] at havailable
    unfold biasesRectangle
    cases hop : i.opcode <;> first | rfl | skip
    rw [hop] at havailable
    cases havailable
  refine ⟨⟨header m (settings.limits .vertex) ++ shadows m ++
    variableLines m (declaration m (settings.limits .vertex)), ?_⟩, sharesSize_iff hm, ?_⟩
  · rw [translate_eq h, generate_eq_ok hm hrect]
    simp only [lines, body, List.append_assoc]
  intro M M' σ hM hready hrun
  obtain ⟨σ', hexec, hlast⟩ := body_exec hm hkind hrect hrun hM hready
  refine ⟨σ', hexec, fun x hx => ?_⟩
  have hsizeAfter : sizeAfter B m M m.instructions none =
      (lastSizeVar m m.instructions none).map fun v => M'.vectors v .x :=
    sizeAfter_eq hrun rfl hm.instructions (by simp) rfl
  rw [hx] at hsizeAfter
  obtain ⟨written, hwritten, hx⟩ := Option.map_eq_some_iff.1 hsizeAfter.symm
  obtain ⟨i, hi, hsize⟩ := (mem_of_lastSizeVar hwritten).resolve_right (by simp)
  obtain ⟨d, hd, hvar, hkindAt⟩ := sizeVar_spec hsize
  have hmem : written ∈ sizeVars m := mem_sizeVars.2 hkindAt
  obtain ⟨last, hlastVar⟩ := Option.isSome_iff_exists.1
    (List.getLast?_isSome.2 (List.ne_nil_of_mem hmem))
  have hvalue : σ' "gl_PointSize" = some (.reals [x]) ↔
      M'.vectors last .x = M'.vectors written .x := by
    rw [hlast last hlastVar, hx]
    simp
  refine ⟨last, written, hlastVar, hwritten, hvalue, fun hshares => hvalue.2 ?_⟩
  have heq := (sharesSize_iff hm).1 hshares i hi d hd (hvar ▸ hkindAt)
  rw [hlastVar, hvar] at heq
  rw [Option.some.inj heq]

theorem ready_start {m : Model} {limits : Limits} (hm : m.WellFormed limits)
    (hfog : m.special.writesFogCoord = false) : Ready m (startStore m) := by
  have hname {n : String} (h : ∀ i, n ≠ variableName m i) :
      n ∉ (List.range m.vars.length).map (variableName m) := by
    intro hmem
    obtain ⟨i, -, hi⟩ := List.mem_map.1 hmem
    exact h i hi.symm
  refine ⟨⟨[0], ?_, rfl⟩, ⟨[0], ?_, rfl⟩, ⟨[0, 0, 0, 0], ?_, rfl⟩, by simp [hfog]⟩
  · exact if_neg (hname fun i => resultName_ne_variableName m i .pointSize)
  · exact if_neg (hname fun i => attributeName_ne_variableName hm i .fragmentFogCoord)
  · exact if_neg (hname fun i => resultName_ne_variableName m i .position)

/-- A move of the position, or of its opposite, to a variable. -/
def positionMove (var : Nat) (negate : Bool) (position offset : Nat) : Instruction where
  opcode := .mov
  destination := some { var := var }
  sources := [{ negate := negate, register := .whole position }]
  offset := offset

omit [Field K] [LinearOrder K] in
theorem inRange_positionMove (M : Machine K) (m : Model) (var : Nat) {negate : Bool}
    {position offset : Nat} :
    ∀ s ∈ (positionMove var negate position offset).sources, M.InRange m s.register := by
  intro s hs
  rw [List.mem_singleton.1 hs]
  trivial

/-- A program that writes the point size by two names of one variable. -/
def twoNames : String :=
  "!!ARBvp1.0\nOUTPUT a = result.pointsize;\nALIAS b = a;\nMOV b, vertex.position;\n" ++
    "MOV a, -vertex.position;\nEND\n"

/-- What is read from it. -/
def twoNamesModel : Model where
  kind := .vertex
  vars := [{ name := "a", kind := .output .pointSize, offset := 18 },
    { name := "vertex.position", kind := .input .vertexPosition, offset := 60, implicit := true }]
  instructions := [positionMove 0 false 1 53, positionMove 0 true 1 77]

theorem pointSize_twoNames : ∃ σ',
    execLines zeroBuiltins (startStore twoNamesModel) (body twoNamesModel) = some (.running σ') ∧
      σ' "gl_PointSize" = some (.reals [-1]) := by
  have hread : readProgram {} twoNames .vertex = .ok twoNamesModel := by
    refine eq_ok_of_toOption ?_
    rw [show twoNames = String.ofList _ from String.ofList_append.symm, toOption_readProgram_ofList]
    decide +kernel
  obtain ⟨-, hm⟩ := wellFormed_of_readProgram hread
  obtain ⟨-, hshares, hruns⟩ := pointSize_of_readProgram zeroBuiltins hread
  obtain ⟨σ', hexec, harrives⟩ := hruns _ _ _ (represents_start hm (by decide) rfl)
    (ready_start hm rfl)
    (.step (inRange_positionMove _ _ _) rfl (.step (inRange_positionMove _ _ _) rfl (.done _)))
  obtain ⟨-, -, -, -, -, hsize⟩ := harrives (-1) rfl
  refine ⟨σ', hexec, hsize (hshares.2 ?_)⟩
  decide

/-- A program that writes the point size by two variables. -/
def twoVariables : String :=
  "!!ARBvp1.0\nOUTPUT a = result.pointsize;\nOUTPUT b = result.pointsize;\n" ++
    "MOV b, vertex.position;\nMOV a, -vertex.position;\nEND\n"

/-- What is read from it. -/
def twoVariablesModel : Model where
  kind := .vertex
  vars := [{ name := "a", kind := .output .pointSize, offset := 18 },
    { name := "b", kind := .output .pointSize, offset := 47 },
    { name := "vertex.position", kind := .input .vertexPosition, offset := 76, implicit := true }]
  instructions := [positionMove 1 false 2 69, positionMove 0 true 2 93]

/-- The point size of such a program is lost. -/
theorem pointSize_twoVariables : ∃ M' σ', readProgram {} twoVariables .vertex = .ok twoVariablesModel ∧
    Runs zeroBuiltins twoVariablesModel startMachine twoVariablesModel.instructions (some M') ∧
    sizeAfter zeroBuiltins twoVariablesModel startMachine twoVariablesModel.instructions none =
      some (-1) ∧
    execLines zeroBuiltins (startStore twoVariablesModel) (body twoVariablesModel) =
      some (.running σ') ∧
    σ' "gl_PointSize" = some (.reals [1]) ∧ ¬ SharesSize twoVariablesModel := by
  have hread : readProgram {} twoVariables .vertex = .ok twoVariablesModel := by
    refine eq_ok_of_toOption ?_
    rw [show twoVariables = String.ofList _ from String.ofList_append.symm,
      toOption_readProgram_ofList]
    decide +kernel
  obtain ⟨-, hm⟩ := wellFormed_of_readProgram hread
  have hruns : Runs zeroBuiltins twoVariablesModel startMachine twoVariablesModel.instructions _ :=
    .step (inRange_positionMove _ _ _) rfl (.step (inRange_positionMove _ _ _) rfl (.done _))
  obtain ⟨σ', hexec, hlast⟩ := body_exec hm rfl (by decide) hruns
    (represents_start hm (by decide) rfl) (ready_start hm rfl)
  refine ⟨_, σ', hread, hruns, rfl, hexec, hlast 1 (by decide), ?_⟩
  rw [sharesSize_iff hm]
  decide

end ShaderAssembly
