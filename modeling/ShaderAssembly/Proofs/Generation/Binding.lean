import ShaderAssembly.Glsl.Shader
import ShaderAssembly.Proofs.Generation.Name
/-!
# Bindings of well-formed programs

* `Yields`: a computation that does not fail, and whose value has a property;
* `Scope.HasGlobals`: a scope with what every shader declares first;
* `input_scoped`, `state_yields`, **`param_yields`**: attributes, state vectors and parameters are
  expressions in scope.
-/

namespace ShaderAssembly.Glsl

/-! ## Computations that do not fail -/

/-- The computation gives a value with `Q`. -/
def Yields {ε α : Type} (step : Except ε α) (Q : α → Prop) : Prop := ∃ a, step = .ok a ∧ Q a

namespace Yields

variable {ε α β : Type} {step : Except ε α} {Q : α → Prop}

theorem of_ok {a : α} (h : Q a) : Yields (.ok a : Except ε α) Q := ⟨a, rfl, h⟩

theorem bind {f : α → Except ε β} {R : β → Prop} (h : Yields step Q)
    (hf : ∀ a, Q a → Yields (f a) R) : Yields (step >>= f) R := by
  obtain ⟨a, rfl, ha⟩ := h
  exact hf a ha

theorem bind₂ {γ : Type} {step' : Except ε β} {Q' : β → Prop} {f : α → β → Except ε γ}
    {R : γ → Prop} (h : Yields step Q) (h' : Yields step' Q')
    (hf : ∀ a b, Q a → Q' b → Yields (f a b) R) :
    Yields (step >>= fun a => step' >>= f a) R := h.bind fun a ha => h'.bind fun b hb => hf a b ha hb

end Yields

/-! ## Bindings -/

/-- A scope with the parameter banks, and with the type of address registers where there are any. -/
structure Scope.HasGlobals (s : Scope) (kind : ProgramKind) (limits : Limits) : Prop where
  env : s.names (envName kind) ∧ s.arrays (envName kind) limits.maxEnvParams
  localParam : s.names (localName kind) ∧ s.arrays (localName kind) limits.maxLocalParams
  address : kind = .vertex → s.names "ARBAddress"

theorem Scope.all_hasGlobals (kind : ProgramKind) (limits : Limits) :
    Scope.all.HasGlobals kind limits := ⟨⟨trivial, trivial⟩, ⟨trivial, trivial⟩, fun _ => trivial⟩

variable {s : Scope} {limits : Limits}

theorem constant_scoped {v : Vector4} (h : v.IsFinite) : (constant v).Scoped s := by
  have hv : ∀ x ∈ [v.x, v.y, v.z, v.w], x.isFinite = true := h
  refine Expr.scoped_vector ?_ ?_ ?_ ?_
  · exact hv v.x (by simp)
  · exact hv v.y (by simp)
  · exact hv v.z (by simp)
  · exact hv v.w (by simp)

theorem scalarVector_scoped {e : Expr} (h : e.Scoped s) : (scalarVector e).Scoped s :=
  Expr.scoped_vector h Expr.scoped_zero Expr.scoped_zero Expr.scoped_one

theorem inputColor_scoped (set : ColorSet) : (inputColor set).Scoped s := by
  cases set with
  | primary => exact Expr.scoped_builtIn (by decide)
  | secondary => exact Expr.scoped_builtIn (by decide)

theorem input_scoped (b : InputBinding) : (input b).Scoped s := by
  cases b with
  | vertexPosition | fragmentPosition => exact Expr.scoped_builtIn (by decide)
  | vertexNormal =>
    exact Expr.scoped_call2 (Expr.scoped_builtIn (by decide)) Expr.scoped_one
      (by decide)
  | vertexColor set | fragmentColor set => exact inputColor_scoped set
  | vertexFogCoord | fragmentFogCoord =>
    exact scalarVector_scoped (Expr.scoped_builtIn (by decide))
  | vertexTexCoord n =>
    refine Expr.scoped_builtIn (n := "gl_" ++ ("MultiTexCoord" ++ toString n)) (isBuiltIn_gl ?_)
    exact all_isNameChar_of_isWord (isWord_append_toString (by decide) n)
  | fragmentTexCoord n => exact Expr.scoped_item (by decide) n

theorem matrixRow_scoped (matrix : MatrixName) (modifier : MatrixModifier) (row : Nat) :
    (matrixRow matrix modifier row).Scoped s := by
  have item (base : String) (h : isBuiltIn (base ++ matrixEnding modifier) = true) :
      (Expr.item (.name (base ++ matrixEnding modifier)) row).Scoped s := Expr.scoped_item h row
  cases matrix with
  | modelView => exact item _ (by cases modifier <;> decide)
  | projection => exact item _ (by cases modifier <;> decide)
  | mvp => exact item _ (by cases modifier <;> decide)
  | texture unit =>
    exact Expr.scoped_item_item (Expr.scoped_item (by cases modifier <;> decide) unit) row

theorem material_scoped (face : Face) (property : MaterialProperty) :
    (material face property).Scoped s := by
  have base : (materialOf face).Scoped s := Expr.scoped_builtIn (by cases face <;> decide)
  cases property with
  | ambient | diffuse | specular | emission => exact Expr.scoped_field base (by decide)
  | shininess => exact scalarVector_scoped (Expr.scoped_field base (by decide))

theorem light_scoped (n : Nat) (property : LightProperty) : (light n property).Scoped s := by
  have base : (lightSource n).Scoped s := Expr.scoped_item (by decide) n
  have member (selector : String) (h : isBuiltIn selector = true) :
      (Expr.field (lightSource n) selector).Scoped s := Expr.scoped_field base h
  cases property with
  | ambient | diffuse | specular | position => exact member _ (by decide)
  | attenuation =>
    exact Expr.scoped_vector (member _ (by decide)) (member _ (by decide))
      (member _ (by decide)) (member _ (by decide))
  | spotDirection =>
    exact Expr.scoped_call2 (member _ (by decide)) (member _ (by decide))
      (by decide)
  | half =>
    refine Expr.scoped_call2 (Expr.scoped_field (member _ ?_) ?_) Expr.scoped_one ?_
    all_goals decide

theorem lightProduct_yields {n : Nat} {face : Face} {property : MaterialProperty}
    (h : property ≠ .emission ∧ property ≠ .shininess) :
    Yields (lightProduct n face property) (Expr.Scoped s) := by
  have base : (productOf n face).Scoped s := Expr.scoped_item (by cases face <;> decide) n
  cases property with
  | ambient | diffuse | specular => exact .of_ok (Expr.scoped_field base (by decide))
  | emission => exact absurd rfl h.1
  | shininess => exact absurd rfl h.2

/-- A vector of the state that the pipeline has is an expression. -/
theorem state_yields {b : StateBinding} (h : b.WellFormed limits) :
    Yields (state b) (Expr.Scoped s) := by
  have member (base selector : String) (h : (isBuiltIn base && isBuiltIn selector) = true) :
      (Expr.field (.name base) selector).Scoped s := by
    obtain ⟨hbase, hselector⟩ := Bool.and_eq_true_iff.1 h
    exact ⟨Expr.scoped_builtIn hbase, hselector⟩
  cases b with
  | matrixRow matrix modifier row => exact .of_ok (matrixRow_scoped matrix modifier row)
  | material face property => exact .of_ok (material_scoped face property)
  | light n property => exact .of_ok (light_scoped n property)
  | lightModelAmbient => exact .of_ok (member _ _ (by decide))
  | lightModelSceneColor face =>
    exact .of_ok (member _ _ (by cases face <;> decide))
  | lightProduct n face property => exact lightProduct_yields h.2
  | fogColor => exact .of_ok (member _ _ (by decide))
  | fogParams =>
    exact .of_ok (Expr.scoped_vector
      (member _ _ (by decide)) (member _ _ (by decide))
      (member _ _ (by decide)) (member _ _ (by decide)))
  | clipPlane n => exact .of_ok (Expr.scoped_item (by decide) n)
  | pointSize =>
    exact .of_ok (Expr.scoped_vector
      (member _ _ (by decide)) (member _ _ (by decide))
      (member _ _ (by decide)) (member _ _ (by decide)))
  | pointAttenuation =>
    exact .of_ok (Expr.scoped_vector
      (member _ _ (by decide)) (member _ _ (by decide))
      (member _ _ (by decide)) Expr.scoped_one)
  | texEnvColor n => exact .of_ok (Expr.scoped_item (by decide) n)
  | depthRange =>
    exact .of_ok (Expr.scoped_vector
      (member _ _ (by decide)) (member _ _ (by decide))
      (member _ _ (by decide)) Expr.scoped_one)

/-- A place inside an array that is declared. -/
theorem item_scoped {name : String} {k size : Nat} (h : isGeneratedName name)
    (hname : s.names name) (hsize : s.arrays name size) (hk : k < size) :
    (Expr.item (.name name) k).Scoped s := by
  exact ⟨Expr.scoped_generated h hname, trivial, fun _ _ _ => ⟨k, rfl, fun _ => ⟨size, hsize, hk⟩⟩⟩

/-- **A parameter is an expression, and a place in a bank lies inside it.** -/
theorem param_yields {kind : ProgramKind} (hs : s.HasGlobals kind limits) {b : ParamBinding}
    (h : b.WellFormed limits) : Yields (param kind limits b) (Expr.Scoped s) := by
  cases b with
  | constant v => exact .of_ok (constant_scoped h)
  | state b => exact state_yields h
  | env n =>
    rw [param, if_pos (show n < limits.maxEnvParams from h)]
    exact .of_ok (item_scoped (envName_spec kind) hs.env.1 hs.env.2 h)
  | localParam n =>
    rw [param, if_pos (show n < limits.maxLocalParams from h)]
    exact .of_ok (item_scoped (localName_spec kind) hs.localParam.1 hs.localParam.2 h)

end ShaderAssembly.Glsl
