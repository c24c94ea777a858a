import ShaderAssembly.Proofs.Generation.Instruction
import ShaderAssembly.Proofs.Meaning.Denotation
import ShaderAssembly.Proofs.Meaning.Program
/-!
# Machines in the store of a shader

* `Represents`: a store holds what the registers of a machine hold, each under the name that the
  shader has for it;
* `Represents.register`: the expression of a register denotes what it holds;
* **`Represents.write`**, **`Represents.writeAddress`**: an assignment to the target of a destination
  leads to a store that represents the machine behind the write, and touches nothing else.
-/

namespace ShaderAssembly.Glsl

variable {K : Type} [Field K]

/-! ## Representation -/

/-- The built-in variable of a color that a program reads. -/
def inputColorName : ColorSet → String
  | .primary => "gl_Color"
  | .secondary => "gl_SecondaryColor"

/-- The built-in variable of a color that a vertex program writes. -/
def outputColorName : Face → ColorSet → String
  | .front, .primary => "gl_FrontColor"
  | .front, .secondary => "gl_FrontSecondaryColor"
  | .back, .primary => "gl_BackColor"
  | .back, .secondary => "gl_BackSecondaryColor"

/-- A store holds a vector as an attribute; what is shorter there is filled up with zeros and a one
at the end. -/
def HoldsAttribute (σ : Store K) (v : Vec4 K) : InputBinding → Prop
  | .vertexPosition => σ "gl_Vertex" = some (.vec4 v)
  | .vertexNormal => ∃ x y z, σ "gl_Normal" = some (.reals [x, y, z]) ∧ v = .of x y z 1
  | .vertexColor set | .fragmentColor set => σ (inputColorName set) = some (.vec4 v)
  | .vertexFogCoord => ∃ x, σ "gl_FogCoord" = some (.reals [x]) ∧ v = .of x 0 0 1
  | .vertexTexCoord n => σ ("gl_" ++ ("MultiTexCoord" ++ toString n)) = some (.vec4 v)
  | .fragmentTexCoord n =>
    ∃ size items, σ "gl_TexCoord" = some (.array size items) ∧ n < size ∧ items n = v
  | .fragmentFogCoord => ∃ x, σ "gl_FogFragCoord" = some (.reals [x]) ∧ v = .of x 0 0 1
  | .fragmentPosition => σ "gl_FragCoord" = some (.vec4 v)

/-- A store holds a result; a point size is held by its variable. -/
def HoldsResult (σ : Store K) (results : OutputBinding → Vec4 K) : OutputBinding → Prop
  | .position => σ "gl_Position" = some (.vec4 (results .position))
  | .color face set => σ (outputColorName face set) = some (.vec4 (results (.color face set)))
  | .texCoord n => ∃ size, n < size ∧
      σ "gl_TexCoord" = some (.array size fun k => results (.texCoord k))
  | .fogCoord => σ fogCoordName = some (.vec4 (results .fogCoord))
  | .pointSize => True
  | .fragColor => σ "gl_FragColor" = some (.vec4 (results .fragColor))
  | .fragDepth => σ depthName = some (.vec4 (results .fragDepth))

/-- A variable of the shader holds what the variable of the program at its place stands for. -/
def HoldsVariable (M : Machine K) (i : Nat) (v : Option (Value K)) : VariableKind → Prop
  | .temporary | .param _ | .output .pointSize => v = some (.vec4 (M.vectors i))
  | .paramArray items => v = some (.array items.length (M.arrays i))
  | .address => v = some (.address (M.addresses i))
  | .input _ | .output _ => True

/-- **A store holds what the registers of a machine hold.** -/
structure Represents (m : Model) (M : Machine K) (σ : Store K) : Prop where
  vars : ∀ i k, kindAt m.vars i = some k → HoldsVariable M i (σ (variableName m i)) k
  attributes : ∀ i b, kindAt m.vars i = some (.input b) → HoldsAttribute σ (M.attributes b) b
  results : ∀ i b, kindAt m.vars i = some (.output b) → HoldsResult σ M.results b
  samplers : ∀ unit target, m.samplers.get? unit = some target →
    σ (samplerName unit) = some (.sampler target unit)

/-! ## Names -/

/-- The variable of the shader that holds an attribute. -/
def attributeName : InputBinding → String
  | .vertexPosition => "gl_Vertex"
  | .vertexNormal => "gl_Normal"
  | .vertexColor set | .fragmentColor set => inputColorName set
  | .vertexFogCoord => "gl_FogCoord"
  | .vertexTexCoord n => "gl_" ++ ("MultiTexCoord" ++ toString n)
  | .fragmentTexCoord _ => "gl_TexCoord"
  | .fragmentFogCoord => "gl_FogFragCoord"
  | .fragmentPosition => "gl_FragCoord"

/-- The variable of the shader that holds a result, for a point size that to which it goes. -/
def resultName : OutputBinding → String
  | .position => "gl_Position"
  | .color face set => outputColorName face set
  | .texCoord _ => "gl_TexCoord"
  | .fogCoord => fogCoordName
  | .pointSize => "gl_PointSize"
  | .fragColor => "gl_FragColor"
  | .fragDepth => depthName

theorem HoldsAttribute.congr {σ σ' : Store K} {v : Vec4 K} {b : InputBinding}
    (h : HoldsAttribute σ v b) (hname : σ' (attributeName b) = σ (attributeName b)) :
    HoldsAttribute σ' v b := by
  cases b <;> simp only [HoldsAttribute, attributeName] at * <;> rw [hname] <;> exact h

omit [Field K] in
theorem holdsResult_iff {σ : Store K} {results : OutputBinding → Vec4 K} {b : OutputBinding}
    (hsize : b ≠ .pointSize) (hcoord : ∀ n, b ≠ .texCoord n) :
    HoldsResult σ results b ↔ σ (resultName b) = some (.vec4 (results b)) := by
  cases b with
  | texCoord n => exact absurd rfl (hcoord n)
  | pointSize => exact absurd rfl hsize
  | position | color | fogCoord | fragColor | fragDepth => exact Iff.rfl

omit [Field K] in
/-- Whether a result is held depends on its variable and on the results that share it. -/
theorem HoldsResult.congr {σ σ' : Store K} {results results' : OutputBinding → Vec4 K}
    {b : OutputBinding} (h : HoldsResult σ results b) (hname : σ' (resultName b) = σ (resultName b))
    (hresults : ∀ c, resultName c = resultName b → results' c = results c) :
    HoldsResult σ' results' b := by
  cases b with
  | texCoord n =>
    obtain ⟨size, hn, hitems⟩ := h
    refine ⟨size, hn, (hname.trans hitems).trans ?_⟩
    rw [funext fun k => hresults (.texCoord k) rfl]
  | pointSize => trivial
  | position | color | fogCoord | fragColor | fragDepth =>
    refine (hname.trans h).trans ?_
    rw [hresults _ rfl]

/-- The variables of the shader that hold attributes, those with a number apart. -/
def attributeNames : ProgramKind → List String
  | .vertex => ["gl_Vertex", "gl_Normal", "gl_Color", "gl_SecondaryColor", "gl_FogCoord"]
  | .fragment => ["gl_Color", "gl_SecondaryColor", "gl_TexCoord", "gl_FogFragCoord", "gl_FragCoord"]

/-- The variables of the shader that hold results. -/
def resultNames : ProgramKind → List String
  | .vertex => ["gl_Position", "gl_FrontColor", "gl_FrontSecondaryColor", "gl_BackColor",
      "gl_BackSecondaryColor", "gl_TexCoord", fogCoordName, "gl_PointSize"]
  | .fragment => ["gl_FragColor", depthName]

theorem mark_multiTexCoord (n : Nat) :
    mark ("gl_" ++ ("MultiTexCoord" ++ toString n)) = some 'u' := by
  rw [← String.append_assoc, show "gl_" ++ "MultiTexCoord" = "gl_Mu" ++ "ltiTexCoord" by decide,
    String.append_assoc, mark_append]
  rfl

theorem attributeName_mem (b : InputBinding) :
    attributeName b ∈ attributeNames b.kind ∨ mark (attributeName b) = some 'u' := by
  cases b with
  | vertexTexCoord n => exact .inr (mark_multiTexCoord n)
  | vertexColor set | fragmentColor set =>
    cases set <;> exact .inl (by simp [attributeName, inputColorName, attributeNames, InputBinding.kind])
  | vertexPosition | vertexNormal | vertexFogCoord | fragmentTexCoord | fragmentFogCoord
  | fragmentPosition => exact .inl (by simp [attributeName, attributeNames, InputBinding.kind])

theorem resultName_mem (b : OutputBinding) : resultName b ∈ resultNames b.kind := by
  cases b with
  | color face set =>
    cases face <;> cases set <;> simp [resultName, outputColorName, resultNames, OutputBinding.kind]
  | position | texCoord | fogCoord | pointSize | fragColor | fragDepth =>
    simp [resultName, resultNames, OutputBinding.kind]

theorem isName_resultName (b : OutputBinding) :
    isName (resultName b) = true ∧ typeNames.contains (resultName b) = false := by
  have h : ∀ kind, ∀ r ∈ resultNames kind, isName r = true ∧ typeNames.contains r = false := by
    intro kind
    cases kind <;> decide
  exact h _ _ (resultName_mem b)

theorem mark_resultName (b : OutputBinding) :
    mark (resultName b) ≠ some 'u' ∧ mark (resultName b) ≠ some 'i' ∧
      mark (resultName b) ≠ some 't' := by
  have h : ∀ kind, ∀ r ∈ resultNames kind,
      mark r ≠ some 'u' ∧ mark r ≠ some 'i' ∧ mark r ≠ some 't' := by
    intro kind
    cases kind <;> decide
  exact h _ _ (resultName_mem b)

theorem attributeName_ne_resultName {a : InputBinding} {b : OutputBinding} (h : a.kind = b.kind) :
    attributeName a ≠ resultName b := by
  have hdisjoint : ∀ kind, ∀ n ∈ attributeNames kind, ∀ r ∈ resultNames kind, n ≠ r := by
    intro kind
    cases kind <;> decide
  rcases attributeName_mem a with ha | ha
  · rw [h] at ha
    exact hdisjoint _ _ ha _ (resultName_mem b)
  · intro hname
    rw [hname] at ha
    exact (mark_resultName b).1 ha

/-- The results that have a variable of the shader to themselves. -/
def separateResults : List OutputBinding :=
  [.position, .color .front .primary, .color .front .secondary, .color .back .primary,
   .color .back .secondary, .fogCoord, .pointSize, .fragColor, .fragDepth]

/-- Two results share a variable of the shader only if both are texture coordinates. -/
theorem resultName_injective {a b : OutputBinding} (h : resultName a = resultName b) :
    a = b ∨ ∃ n k, a = .texCoord n ∧ b = .texCoord k := by
  have separate (a : OutputBinding) : a ∈ separateResults ∨ ∃ n, a = .texCoord n := by
    cases a with
    | color face set => cases face <;> cases set <;> exact .inl (by decide)
    | texCoord n => exact .inr ⟨n, rfl⟩
    | position | fogCoord | pointSize | fragColor | fragDepth => exact .inl (by decide)
  have distinct : ∀ a ∈ separateResults, ∀ b ∈ separateResults, resultName a = resultName b → a = b := by
    decide
  have other : ∀ a ∈ separateResults, resultName a ≠ "gl_TexCoord" := by decide
  rcases separate a with ha | ⟨n, rfl⟩
  · rcases separate b with hb | ⟨k, rfl⟩
    · exact .inl (distinct a ha b hb h)
    · exact absurd h (other a ha)
  · rcases separate b with hb | ⟨k, rfl⟩
    · exact absurd h.symm (other b hb)
    · exact .inr ⟨n, k, rfl, rfl⟩

theorem isGenerated_attributeName (b : InputBinding) : isGenerated (attributeName b) = false := by
  cases b with
  | vertexTexCoord n =>
    rw [attributeName, isGenerated, String.toList_append]
    rfl
  | vertexColor set | fragmentColor set => cases set <;> decide
  | vertexPosition | vertexNormal | vertexFogCoord | fragmentTexCoord | fragmentFogCoord
  | fragmentPosition =>
    rw [attributeName]
    decide

theorem resultName_ne_variableName (m : Model) (i : Nat) (b : OutputBinding) :
    resultName b ≠ variableName m i := by
  intro h
  obtain ⟨hu, hi, -⟩ := mark_resultName b
  rw [h] at hu hi
  exact (mark_variableName m i).elim hu hi

theorem attributeName_ne_variableName {m : Model} {limits : Limits} (hm : m.WellFormed limits)
    (i : Nat) (b : InputBinding) : attributeName b ≠ variableName m i := by
  intro h
  have hgen := isGenerated_attributeName b
  rw [h, (variableName_spec hm i).2] at hgen
  cases hgen

theorem samplerName_ne_variableName (m : Model) (i unit : Nat) :
    samplerName unit ≠ variableName m i := by
  intro h
  have hmark := mark_variableName m i
  rw [← h, mark_samplerName] at hmark
  exact absurd hmark (by decide)

/-! ## Writes -/

variable {m : Model} {limits : Limits} {M M' : Machine K} {σ : Store K}

theorem Represents.setVariable (hm : m.WellFormed limits) (hM : Represents m M σ) {var : Nat}
    {k : VariableKind} {v : Value K} (hk : kindAt m.vars var = some k)
    (hnew : HoldsVariable M' var (some v) k)
    (hold : ∀ i, i ≠ var → ∀ k v, HoldsVariable M i v k → HoldsVariable M' i v k)
    (hattributes : M'.attributes = M.attributes) (hresults : M'.results = M.results) :
    Represents m M' (σ.set (variableName m var) v) where
  vars i k' hk' := by
    by_cases hi : i = var
    · subst hi
      rw [hk] at hk'
      cases hk'
      rw [Store.set_self]
      exact hnew
    · have hne : variableName m i ≠ variableName m var := fun h => hi (variableName_injective hm h)
      rw [Store.set_ne _ _ hne]
      exact hold i hi _ _ (hM.vars i k' hk')
  attributes i b hb := by
    rw [hattributes]
    exact (hM.attributes i b hb).congr (Store.set_ne _ _ (attributeName_ne_variableName hm var b))
  results i b hb := by
    rw [hresults]
    exact (hM.results i b hb).congr (Store.set_ne _ _ (resultName_ne_variableName m var b))
      fun _ _ => rfl
  samplers unit target h := by
    rw [Store.set_ne _ _ (samplerName_ne_variableName m var unit)]
    exact hM.samplers unit target h

theorem Represents.setResult (hm : m.WellFormed limits) (hM : Represents m M σ) {b : OutputBinding}
    (hb : b.kind = m.kind) {u : Vec4 K} {v : Value K}
    (hnew : ∀ c, resultName c = resultName b → HoldsResult σ M.results c →
      HoldsResult (σ.set (resultName b) v) (Function.update M.results b u) c) :
    Represents m { M with results := Function.update M.results b u } (σ.set (resultName b) v) where
  vars i k hk := by
    rw [Store.set_ne _ _ (resultName_ne_variableName m i b).symm]
    exact hM.vars i k hk
  attributes i a ha := by
    have hkind : a.kind = b.kind := (show a.kind = m.kind from hm.kindAt ha).trans hb.symm
    exact (hM.attributes i a ha).congr (Store.set_ne _ _ (attributeName_ne_resultName hkind))
  results i c hc := by
    have hheld := hM.results i c hc
    by_cases hname : resultName c = resultName b
    · exact hnew c hname hheld
    · refine hheld.congr (Store.set_ne _ _ hname) fun c' hc' => Function.update_of_ne ?_ _ _
      rintro rfl
      exact hname hc'.symm
  samplers unit target h := by
    have hne : samplerName unit ≠ resultName b := by
      intro hname
      have hmark := (mark_resultName b).2.2
      rw [← hname, mark_samplerName] at hmark
      exact hmark rfl
    rw [Store.set_ne _ _ hne]
    exact hM.samplers unit target h

end ShaderAssembly.Glsl
