import Mathlib.Algebra.Field.Rat
import Mathlib.Algebra.Order.Ring.Rat
import ShaderAssembly.Proofs.Meaning.Value
import ShaderAssembly.Proofs.Parsing.Characters
import ShaderAssembly.Proofs.Parsing.Program
/-!
# What statements do

* `target_denotes`: the target of a destination denotes what the destination holds, and an
  assignment to it puts another vector there;
* `store_exec`: a store writes the components of its mask;
* **`statement_effect`**: the statement of an instruction does what the instruction does.
-/

namespace ShaderAssembly.Glsl

/-! ## Masks -/

variable {K : Type}

theorem merge_all (new old : Vec4 K) : WriteMask.all.merge new old = new := by
  funext k
  cases k <;> rfl

theorem update_vec4 (mask : WriteMask) (new old : Vec4 K) :
    (Value.vec4 old).update mask.text (.reals (mask.components.map new)) =
      some (.vec4 (mask.merge new old)) := by
  have hupdate : (Value.vec4 old).update mask.text (.reals (mask.components.map new)) =
      if mask.components.Nodup ∧ mask.components.length = (mask.components.map new).length ∧
          ∀ c ∈ mask.components, c.index < old.toList.length then
        some (.reals (Value.replace old.toList mask.components (mask.components.map new)))
      else none := by
    rw [Value.vec4, Value.update, WriteMask.text, components?_text]
    rfl
  rw [hupdate]
  obtain ⟨x, y, z, w⟩ := mask
  cases x <;> cases y <;> cases z <;> cases w <;> rfl

variable [Field K] [LinearOrder K] {B : Builtins K} {σ : Store K} {m : Model} {limits : Limits}
  {M : Machine K} {i : Instruction}

/-! ## Targets -/

/-- The variable of the shader that a destination is in. -/
def targetName (m : Model) (var : Nat) : String :=
  match kindAt m.vars var with
  | some (.output .pointSize) => variableName m var
  | some (.output b) => resultName b
  | _ => variableName m var

/-- An expression denotes what a destination holds, and an assignment to it puts another vector
there and touches nothing else. -/
structure Targets (B : Builtins K) (m : Model) (M : Machine K) (σ : Store K) (var : Nat) (e : Expr) :
    Prop where
  denotes : Denotes B σ .operand e (.vec4 (M.target m var))
  write : ∀ v, ∃ σ', e.write B σ (.vec4 v) = some σ' ∧ Represents m (M.put m var v) σ' ∧
    ∀ n, n ≠ targetName m var → σ' n = σ n

theorem write_vec4 {n : String} {old : Vec4 K} (h : σ n = some (.vec4 old)) (v : Vec4 K) :
    (Expr.name n).write B σ (.vec4 v) = some (σ.set n (.vec4 v)) := Expr.write_name_of h rfl

theorem targets_variable (hm : m.WellFormed limits) (hM : Represents m M σ) {var : Nat}
    {k : VariableKind} (hk : kindAt m.vars var = some k)
    (h : k = .temporary ∨ k = .output .pointSize) :
    Targets B m M σ var (.name (variableName m var)) := by
  have hheld : σ (variableName m var) = some (.vec4 (M.vectors var)) := by
    rcases h with rfl | rfl <;> exact hM.vars var _ hk
  have htarget : M.target m var = M.vectors var := by
    rcases h with rfl | rfl <;> rw [Machine.target, hk]
  have hname : targetName m var = variableName m var := by
    rcases h with rfl | rfl <;> rw [targetName, hk]
  refine ⟨?_, fun v => ⟨_, write_vec4 hheld v, ?_, fun n hn => ?_⟩⟩
  · rw [htarget]
    exact .generated (variableName_spec hm var) hheld
  · have hput : M.put m var v = { M with vectors := Function.update M.vectors var v } := by
      rcases h with rfl | rfl <;> rw [Machine.put, hk]
    rw [hput]
    refine hM.setVariable hm hk ?_ (fun j hj k w hw => ?_) rfl rfl
    · rcases h with rfl | rfl <;> simp [HoldsVariable]
    · unfold HoldsVariable at hw ⊢
      split at hw <;> simp_all
  · rw [hname] at hn
    exact Store.set_ne _ _ hn

theorem targets_result (hm : m.WellFormed limits) (hM : Represents m M σ) {var : Nat}
    {b : OutputBinding} (hk : kindAt m.vars var = some (.output b)) (hsize : b ≠ .pointSize)
    (hcoord : ∀ n, b ≠ .texCoord n) {e : Expr} (he : e = .name (resultName b)) :
    Targets B m M σ var e := by
  have hheld := (holdsResult_iff hsize hcoord).1 (hM.results var b hk)
  have htarget : M.target m var = M.results b := by
    rw [Machine.target, hk]
    cases b <;> first | rfl | exact absurd rfl hsize
  have hput (v : Vec4 K) : M.put m var v = { M with results := Function.update M.results b v } := by
    rw [Machine.put, hk]
    cases b <;> first | rfl | exact absurd rfl hsize
  have hframe : targetName m var = resultName b := by
    rw [targetName, hk]
    cases b <;> first | rfl | exact absurd rfl hsize
  subst he
  refine ⟨?_, fun v => ⟨_, write_vec4 hheld v, ?_, fun n hn => ?_⟩⟩
  · rw [htarget]
    exact .name (isName_resultName b).1 (isName_resultName b).2 hheld
  · rw [hput]
    refine hM.setResult hm (hm.kindAt hk) fun c hc _ => ?_
    rcases resultName_injective hc with rfl | ⟨n, k, rfl, rfl⟩
    · rw [holdsResult_iff hsize hcoord, Store.set_self, Function.update_self]
    · exact absurd rfl (hcoord k)
  · rw [hframe] at hn
    exact Store.set_ne _ _ hn

theorem write_item {name : String} {size n : Nat} {items : Nat → Vec4 K}
    (h : σ name = some (.array size items)) (hn : n < size) (v : Vec4 K) :
    (Expr.item (.name name) n).write B σ (.vec4 v) =
      some (σ.set name (.array size (Function.update items n v))) := by
  have hset : (Value.array size items).setItem (.int n) (.vec4 v) =
      some (.array size (Function.update items n v)) := by
    rw [Value.vec4, Vec4.toList, Value.setItem, if_pos (by omega), Vec4.of_self]
    rfl
  have heval : (Expr.name name).eval B σ = some (.array size items) := h
  rw [Expr.item, Expr.write_element_of heval (Expr.eval_whole n) hset, Expr.write_name_of h]
  simp [Value.sameType]

/-- A texture coordinate is an item of an array that all of them share. -/
theorem targets_texCoord (hm : m.WellFormed limits) (hM : Represents m M σ) {var n : Nat}
    (hk : kindAt m.vars var = some (.output (.texCoord n))) :
    Targets B m M σ var (.item (.name "gl_TexCoord") n) := by
  obtain ⟨size, hn, hitems⟩ := hM.results var _ hk
  have array : Denotes B σ .operand (.name "gl_TexCoord") _ :=
    .builtIn "TexCoord" (by decide) hitems
  have hput (v : Vec4 K) :
      M.put m var v = { M with results := Function.update M.results (.texCoord n) v } := by
    rw [Machine.put, hk]
  refine ⟨?_, fun v => ⟨_, write_item hitems hn v, ?_, fun name hname => ?_⟩⟩
  · have htarget : M.target m var = M.results (.texCoord n) := by rw [Machine.target, hk]
    rw [htarget]
    refine .element array (.anywhere (.whole n)) ?_
    simp [Value.item, hn]
  · have hupdate : Function.update (fun k => M.results (.texCoord k)) n v =
        fun k => Function.update M.results (.texCoord n) v (.texCoord k) := by
      refine (Function.update_comp_eq_of_injective _ (f := OutputBinding.texCoord) ?_ n v).symm
      exact fun a b h => OutputBinding.texCoord.inj h
    rw [hput, hupdate]
    refine hM.setResult hm (hm.kindAt hk) fun c hc hheld => ?_
    obtain ⟨k, rfl⟩ : ∃ k, c = .texCoord k := by
      rcases resultName_injective hc with rfl | ⟨k, -, rfl, -⟩
      · exact ⟨n, rfl⟩
      · exact ⟨k, rfl⟩
    obtain ⟨size', hk', hitems'⟩ := hheld
    have hsize : size = size' := by
      rw [hitems] at hitems'
      exact (Value.array.inj (Option.some.inj hitems')).1
    exact ⟨size, hsize ▸ hk', Store.set_self _ _ _⟩
  · have hframe : targetName m var = "gl_TexCoord" := by
      rw [targetName, hk]
      rfl
    rw [hframe] at hname
    exact Store.set_ne _ _ hname

/-- **The target of a destination denotes what the destination holds, and can be assigned to.** -/
theorem target_denotes (hm : m.WellFormed limits) (hM : Represents m M σ) {var : Nat}
    {k : VariableKind} (hk : kindAt m.vars var = some k) (hw : k.isWritable = true) :
    Yields (writeVariable m var) (Targets B m M σ var) := by
  refine (variableAt_yields hk).bind fun v e => ?_
  rw [e]
  cases k with
  | temporary => exact .of_ok (targets_variable hm hM hk (.inl rfl))
  | output b =>
    refine .of_ok ?_
    cases b with
    | pointSize => exact targets_variable hm hM hk (.inr rfl)
    | texCoord n => exact targets_texCoord hm hM hk
    | color face set =>
      refine targets_result hm hM hk nofun nofun ?_
      rw [output]
      cases face <;> cases set <;> decide
    | position | fogCoord | fragColor | fragDepth => exact targets_result hm hM hk nofun nofun rfl
  | address | input b | param b | paramArray items => cases hw

/-! ## Stores -/

theorem assign_exec {var : Nat} {target e : Expr} {v : Vec4 K} (ht : Targets B m M σ var target)
    (he : Denotes B σ .expression e (.vec4 v)) :
    ∃ σ', (Line.assign target e).exec B σ = some (.running σ') ∧ Represents m (M.put m var v) σ' ∧
      ∀ n, n ≠ targetName m var → σ' n = σ n := by
  obtain ⟨σ', hwrite, hrest⟩ := ht.write v
  exact ⟨σ', Line.exec_assign_of he.eval hwrite, hrest⟩

/-- **A store writes the components of its mask, and nothing else.** -/
theorem store_exec {var : Nat} {target e : Expr} {v : Vec4 K} {mask : WriteMask}
    (hmask : mask ≠ .none) (ht : Targets B m M σ var target) (he : Denotes B σ .operand e (.vec4 v)) :
    ReadsStatement (store target mask e).tokens (store target mask e) ∧
      ∃ σ', (store target mask e).exec B σ = some (.running σ') ∧
        Represents m (M.put m var (mask.merge v (M.target m var))) σ' ∧
        ∀ n, n ≠ targetName m var → σ' n = σ n := by
  unfold store
  split
  · rename_i hall
    rw [hall, merge_all]
    exact ⟨.assign ht.denotes.reads he.anywhere.reads, assign_exec ht he.anywhere⟩
  · have selected : Denotes B σ .operand (.field (.group e) mask.text)
        (.reals (mask.components.map v)) :=
      Denotes.selection _ (components_ne_nil hmask) (.group he.anywhere)
    have place := Denotes.selection _ (components_ne_nil hmask) ht.denotes
    refine ⟨.assign place.reads selected.anywhere.reads, ?_⟩
    obtain ⟨σ', hwrite, hrest⟩ := ht.write (mask.merge v (M.target m var))
    rw [← Expr.write_field_of ht.denotes.eval (update_vec4 mask v (M.target m var))] at hwrite
    exact ⟨σ', Line.exec_assign_of selected.eval hwrite, hrest⟩

theorem address_exec (hm : m.WellFormed limits) (hM : Represents m M σ) {var : Nat}
    (hk : kindAt m.vars var = some .address) {e : Expr} {x : Int}
    (he : Denotes B σ .expression e (.int x)) :
    ∃ σ', (Line.assign (.field (.name (variableName m var)) "x") e).exec B σ = some (.running σ') ∧
      Represents m (M.writeAddress var x) σ' ∧ ∀ n, n ≠ variableName m var → σ' n = σ n := by
  have hold : σ (variableName m var) = some (.address (M.addresses var)) := hM.vars var _ hk
  refine ⟨σ.set (variableName m var) (.address x), ?_, ?_, fun n hn => Store.set_ne _ _ hn⟩
  · refine Line.exec_assign_of he.eval ?_
    have hnew : (Value.address (M.addresses var) : Value K).update "x" (.int x) =
        some (.address x) := rfl
    rw [Expr.write_field_of ((Expr.eval_name _).trans hold) hnew, Expr.write_name_of hold rfl]
  · refine hM.setVariable hm hk ?_ (fun j hj k w hw => ?_) rfl rfl
    · simp [HoldsVariable, Machine.writeAddress]
    · unfold HoldsVariable at hw ⊢
      split at hw <;> simp_all [Machine.writeAddress]

/-! ## Statements -/

/-- A statement does in a store what an instruction does in a machine, and touches nothing else than
the instruction's destination. -/
def Performs (B : Builtins K) (m : Model) (M : Machine K) (σ : Store K) (i : Instruction)
    (line : Line) : Prop :=
  match i.effect B M m with
  | none => line.exec B σ = some .discarded
  | some M' => ∃ σ', line.exec B σ = some (.running σ') ∧ Represents m M' σ' ∧
      ∀ n, (∀ d ∈ i.destination, n ≠ targetName m d.var) → σ' n = σ n

/-- An ordinary instruction writes what it computes to its destination. -/
theorem effect_eq_write (hvalue : i.opcode ≠ .arl ∧ i.opcode ≠ .kil) {d : Destination}
    (hd : i.destination = some d) : i.effect B M m = some (M.write m d (i.saturated B M m)) := by
  rw [Instruction.effect, hd]
  split
  · exact absurd ‹_› hvalue.2
  · exact absurd ‹_› hvalue.1
  · rename_i h _ _
    rw [Option.some.inj h]
  · exact absurd ‹some d = none› (Option.some_ne_none d)

variable [IsStrictOrderedRing K]

theorem discard_performs (hm : m.WellFormed limits) (hM : Represents m M σ)
    (hi : i.WellFormed limits m) (hrange : ∀ s ∈ i.sources, M.InRange m s.register)
    (hop : i.opcode = .kil) :
    Yields (statement m i) fun line => ReadsStatement line.tokens line ∧ Performs B m M σ i line := by
  obtain ⟨s, hmem, hs, hsource⟩ := source_spec hi (n := 0) (by rw [hop]; decide)
  have hvector : i.vector M m 0 = s.vector M m := by rw [Instruction.vector, hs]
  unfold statement
  rw [hop]
  dsimp only
  rw [hsource]
  refine (vectorSource_denotes (B := B) hm hM (hi.sources s hmem).register (hrange s hmem)).bind ?_
  refine fun a ha => .of_ok ?_
  have condition : Denotes B σ .expression (.call1 "any" (.call2 "lessThan" a .zeroVector))
      (.bools [Component.all.any fun k => i.vector M m 0 k < 0]) := by
    rw [hvector]
    have negative := Denotes.call2 (f := .lessThan) ha.anywhere
      (Denotes.zeroVector (B := B) (σ := σ)).anywhere rfl (by decide)
    exact .anywhere (.call1 (f := .any) negative.anywhere rfl (by decide))
  refine ⟨.discardIf condition.reads, ?_⟩
  rw [Performs, Instruction.effect, hop]
  dsimp only
  cases hneg : Component.all.any fun k => i.vector M m 0 k < 0 with
  | true =>
    rw [if_pos rfl, Line.exec_discardIf_of condition.eval, hneg]
    rfl
  | false =>
    rw [if_neg (by decide)]
    refine ⟨σ, ?_, hM, fun _ _ => rfl⟩
    rw [Line.exec_discardIf_of condition.eval, hneg]
    rfl

theorem address_performs (hm : m.WellFormed limits) (hM : Represents m M σ)
    (hi : i.WellFormed limits m) (hrange : ∀ s ∈ i.sources, M.InRange m s.register)
    (hop : i.opcode = .arl) :
    Yields (statement m i) fun line => ReadsStatement line.tokens line ∧ Performs B m M σ i line := by
  obtain ⟨s, hmem, hs, hsource⟩ := source_spec hi (n := 0) (by rw [hop]; decide)
  have hscalar : i.scalar M m 0 = s.scalar M m := by rw [Instruction.scalar, hs]
  obtain ⟨d, hd⟩ := Option.isSome_iff_exists.1 (hi.destination_isSome.trans (by rw [hop]; rfl))
  obtain ⟨k, hk, -, hw⟩ := hi.destination d hd
  rw [if_pos hop] at hw
  obtain ⟨rfl, -⟩ := hw
  have hkind : ((m.vars[d.var]?).map (·.kind) != some VariableKind.address) = false := by
    rw [show (m.vars[d.var]?).map (·.kind) = _ from hk]
    rfl
  have hdestination : destinationOf i = .ok d := by rw [destinationOf, hd]
  have heffect : i.effect B M m =
      some (M.writeAddress d.var (B.truncate (B.floor (i.scalar M m 0)))) := by
    rw [Instruction.effect, hop, hd]
  have hframe : targetName m d.var = variableName m d.var := by rw [targetName, hk]
  have htarget : Reads .operand _ (.field (.name (variableName m d.var)) "x") :=
    .field _ (Denotes.generated (B := B) (variableName_spec hm d.var) (hM.vars _ _ hk)).reads
      (by decide)
  unfold statement
  rw [hop]
  dsimp only
  rw [hdestination, hsource]
  simp only [bind, Except.bind, hkind, Bool.false_eq_true, if_false, pure, Except.pure]
  refine (scalarSource_denotes (B := B) hm hM (hi.sources s hmem).register (hrange s hmem)).bind ?_
  refine fun a ha => .of_ok ?_
  have floor : Denotes B σ .expression (.call1 "int" (.call1 "floor" a))
      (.int (B.truncate (B.floor (i.scalar M m 0)))) := by
    rw [hscalar]
    have whole := Denotes.call1 (f := .floor) ha.anywhere rfl (by decide)
    exact .anywhere (.call1 (f := .int) whole.anywhere rfl (by decide))
  refine ⟨.assign htarget floor.reads, ?_⟩
  rw [Performs, heffect]
  obtain ⟨σ', hexec, hM', hrest⟩ := address_exec hm hM hk floor
  refine ⟨σ', hexec, hM', fun n hn => hrest n ?_⟩
  rw [← hframe]
  exact hn d hd

theorem saturated_denotes {e : Expr} (he : Denotes B σ .operand e (.vec4 (i.result B M m))) :
    Denotes B σ .operand (if i.saturate then .call3 "clamp" e .zero .one else e)
      (.vec4 (i.saturated B M m)) := by
  unfold Instruction.saturated
  cases i.saturate with
  | false => exact he
  | true =>
    exact .call3 (f := .clamp) he.anywhere (.anywhere .zero) (.anywhere .one) rfl (by decide)

theorem write_performs (hm : m.WellFormed limits) (hM : Represents m M σ)
    (hi : i.WellFormed limits m) (hrange : ∀ s ∈ i.sources, M.InRange m s.register)
    (hvalue : i.opcode ≠ .arl ∧ i.opcode ≠ .kil) (hrect : biasesRectangle i = false) :
    Yields (statement m i) fun line => ReadsStatement line.tokens line ∧ Performs B m M σ i line := by
  obtain ⟨d, hd⟩ := Option.isSome_iff_exists.1
    (hi.destination_isSome.trans (hasDestination_of_ne_kil hvalue.2))
  obtain ⟨hmask, k, hk, hw, -⟩ := destination_spec hvalue.1 (hi.destination d hd)
  have heffect := effect_eq_write (B := B) (M := M) (m := m) hvalue hd
  have hdestination : destinationOf i = .ok d := by rw [destinationOf, hd]
  unfold statement
  split
  · exact absurd ‹_› hvalue.2
  · exact absurd ‹_› hvalue.1
  · rw [hdestination]
    refine (target_denotes (B := B) hm hM hk hw).bind fun target htarget => ?_
    refine (value_denotes (B := B) hm hM hi hrange hvalue hrect).bind fun e he => .of_ok ?_
    obtain ⟨hreads, σ', hexec, hM', hrest⟩ := store_exec hmask htarget (saturated_denotes he)
    refine ⟨hreads, ?_⟩
    rw [Performs, heffect]
    exact ⟨σ', hexec, hM', fun n hn => hrest n (hn d hd)⟩

/-- **The statement of an instruction can be read as it was meant and does what the instruction
does.** -/
theorem statement_performs (hm : m.WellFormed limits) (hM : Represents m M σ)
    (hi : i.WellFormed limits m) (hrange : ∀ s ∈ i.sources, M.InRange m s.register)
    (hrect : biasesRectangle i = false) :
    Yields (statement m i) fun line => ReadsStatement line.tokens line ∧ Performs B m M σ i line := by
  by_cases hkil : i.opcode = .kil
  · exact discard_performs hm hM hi hrange hkil
  by_cases harl : i.opcode = .arl
  · exact address_performs hm hM hi hrange harl
  · exact write_performs hm hM hi hrange ⟨harl, hkil⟩ hrect

end ShaderAssembly.Glsl

namespace ShaderAssembly

open Glsl

/-- **Every instruction of a program that can be read does in the shader what it does in the
program**, unless it shifts the level of detail of a rectangle, for which there is no statement. -/
theorem statement_effect {K : Type} [Field K] [LinearOrder K] [IsStrictOrderedRing K]
    (B : Builtins K) {settings : TranslatorSettings} {source : String} {kind : ProgramKind} {m : Model}
    (h : readProgram settings source kind = .ok m) {i : Instruction} (hi : i ∈ m.instructions) :
    if biasesRectangle i then statement m i = .error .biasedRectangle
    else ∃ line, statement m i = .ok line ∧
      ∀ M σ, Represents m M σ → (∀ s ∈ i.sources, M.InRange m s.register) →
        ReadsStatement (lex line.text) line ∧ Performs B m M σ i line := by
  obtain ⟨-, hm⟩ := wellFormed_of_readProgram h
  have hwf := hm.instructions i hi
  split
  · rename_i hrect
    exact statement_biasedRectangle hm hwf hrect
  · rename_i hrect
    have hrect : biasesRectangle i = false := eq_false_of_ne_true hrect
    obtain ⟨line, hline, hscoped, -⟩ := statement_yields hm (Scope.all_covers m) hwf hrect
    refine ⟨line, hline, fun M σ hM hrange => ?_⟩
    obtain ⟨line', hline', hperforms⟩ := statement_performs (B := B) hm hM hwf hrange hrect
    cases hline.symm.trans hline'
    rw [Line.lex_text hscoped.spelled]
    exact hperforms

/-- Functions that are zero everywhere. -/
def zeroBuiltins : Builtins ℚ where
  exp2 _ := 0
  log2 _ := 0
  sin _ := 0
  cos _ := 0
  inversesqrt _ := 0
  pow _ _ := 0
  floor _ := 0
  truncate _ := 0
  texture _ _ _ := fun _ => 0
  textureBiased _ _ _ _ := fun _ => 0
  fixedPosition := fun _ => 0

/-- A machine with a position, and with zero elsewhere. -/
def startMachine : Machine ℚ where
  vectors _ := fun _ => 0
  arrays _ _ := fun _ => 0
  addresses _ := 0
  attributes _ := .of 1 2 3 4
  results _ := fun _ => 0

/-- A store with the same for a program whose variables are vectors. -/
def startStore (m : Model) : Store ℚ := fun n =>
  if n ∈ (List.range m.vars.length).map (variableName m) then some (.vec4 fun _ => 0)
  else if n = "gl_Vertex" then some (.vec4 (.of 1 2 3 4))
  else if n = "gl_Position" then some (.vec4 fun _ => 0)
  else if n = "gl_PointSize" ∨ n = "gl_FogFragCoord" then some (.reals [0])
  else none

theorem represents_start {m : Model} {limits : Limits} (hm : m.WellFormed limits)
    (hkinds : ∀ v ∈ m.vars, v.kind = .temporary ∨ v.kind = .output .pointSize ∨
      v.kind = .input .vertexPosition)
    (hsamplers : m.samplers = .empty) : Represents m startMachine (startStore m) := by
  have hkind {i : Nat} {k : VariableKind} (h : kindAt m.vars i = some k) :
      i < m.vars.length ∧ (k = .temporary ∨ k = .output .pointSize ∨ k = .input .vertexPosition) := by
    obtain ⟨v, hv, rfl⟩ := Option.map_eq_some_iff.1 h
    exact ⟨(List.getElem?_eq_some_iff.1 hv).1, hkinds v (List.mem_of_getElem? hv)⟩
  refine ⟨fun i k hk => ?_, fun i b hb => ?_, fun i b hb => ?_, fun unit target h => ?_⟩
  · obtain ⟨hi, hk⟩ := hkind hk
    have hname : startStore m (variableName m i) = some (.vec4 fun _ => 0) :=
      if_pos (List.mem_map_of_mem (List.mem_range.2 hi))
    rcases hk with rfl | rfl | rfl
    · exact hname
    · exact hname
    · trivial
  · obtain ⟨-, h | h | h⟩ := hkind hb
    · cases h
    · cases h
    · cases h
      have hname : "gl_Vertex" ∉ (List.range m.vars.length).map (variableName m) := by
        intro hmem
        obtain ⟨j, -, hj⟩ := List.mem_map.1 hmem
        exact attributeName_ne_variableName hm j .vertexPosition hj.symm
      exact if_neg hname
  · obtain ⟨-, h | h | h⟩ := hkind hb
    · cases h
    · cases h
      trivial
    · cases h
  · rw [hsamplers] at h
    cases h

/-- A program that turns the sign of a coordinate. -/
def mirror : String := "!!ARBvp1.0\nTEMP a;\nMOV a.x, -vertex.position.y;\nEND\n"

/-- Its only instruction. -/
def mirrorMove : Instruction where
  opcode := .mov
  destination := some { var := 0, mask := .onlyX }
  sources := [{ negate := true, register := .whole 1, swizzle := ⟨.y, .y, .y, .y⟩ }]
  offset := 19

/-- What is read from it. -/
def mirrorModel : Model where
  kind := .vertex
  vars := [{ name := "a", kind := .temporary, offset := 16 },
    { name := "vertex.position", kind := .input .vertexPosition, offset := 29, implicit := true }]
  instructions := [mirrorMove]

theorem statement_mirrorMove : ∃ line σ', statement mirrorModel mirrorMove = .ok line ∧
    line.exec zeroBuiltins (startStore mirrorModel) = some (.running σ') ∧
    σ' "arb_ua" = some (.vec4 (.of (-2) 0 0 0)) := by
  have hread : readProgram {} mirror .vertex = .ok mirrorModel := by
    refine eq_ok_of_toOption ?_
    rw [mirror, toOption_readProgram_ofList]
    decide +kernel
  have h := statement_effect zeroBuiltins hread (i := mirrorMove) (List.mem_singleton_self _)
  rw [if_neg (by decide)] at h
  obtain ⟨line, hline, hperforms⟩ := h
  have hM := represents_start (wellFormed_of_readProgram hread).2 (by decide) rfl
  have hrange : ∀ s ∈ mirrorMove.sources, startMachine.InRange mirrorModel s.register := by
    intro s hs
    rw [List.mem_singleton.1 hs]
    trivial
  obtain ⟨-, σ', hexec, hM', -⟩ := hperforms startMachine (startStore mirrorModel) hM hrange
  refine ⟨line, σ', hline, hexec, ?_⟩
  have hname : variableName mirrorModel 0 = "arb_ua" := by decide
  rw [← hname, (hM'.vars 0 .temporary rfl).trans]
  congr 2
  funext k
  cases k <;> rfl

end ShaderAssembly
