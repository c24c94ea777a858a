import ShaderAssembly.Proofs.Comparison.Shader
import ShaderAssembly.Proofs.Parsing.Characters
import ShaderAssembly.Proofs.Parsing.Text
/-!
# Higher limits

* `Comparison.raise`: one text under two limits;
* **`readProgram_of_le`**: a program that can be read is the same under higher limits, and its shader
  shows them in the sizes of the banks only.
-/

namespace ShaderAssembly

/-- A text that is read again under limits none of which is lower. -/
def Comparison.raise {limits limits' : Limits} (h : limits ≤ limits') : Comparison where
  limits := limits
  limits' := limits'
  le := h
  place a b := a = b
  word a b := a = b
  place_of_word h := h
  sameText := True
  eq_of_place _ _ _ h := h

theorem Comparison.raise_sameTokens {limits limits' : Limits} (h : limits ≤ limits')
    (source : String) (start : Nat) : (raise h).SameTokens source start source start where
  tokens := List.forall₂_same.2 fun t _ => ⟨t.offset, rfl, rfl, fun _ => rfl⟩
  stop := rfl
  source _ := rfl

variable {Γ : Comparison}

theorem Comparison.SameVariable.eq {v v' : Variable} (h : Γ.SameVariable v v')
    (same : Γ.sameText) : v' = v := by
  obtain ⟨name, kind, offset, implicit⟩ := v'
  obtain ⟨rfl, rfl, hname, hplace⟩ := h
  obtain rfl := hname (.inr same)
  obtain rfl := Γ.eq_of_place same hplace
  rfl

theorem Comparison.SameInstruction.eq {i i' : Instruction} (h : Γ.SameInstruction i i')
    (same : Γ.sameText) : i' = i := by
  obtain ⟨offset, rfl, hword⟩ := h
  rw [← Γ.eq_of_place same (Γ.place_of_word hword)]

/-- Programs of one text that are alike are the same. -/
theorem Comparison.SameModel.eq {m m' : Model} (h : Γ.SameModel m m') (same : Γ.sameText) :
    m' = m := by
  have eq_of_forall₂ {α : Type} {R : α → α → Prop} (hR : ∀ a a', R a a' → a' = a)
      {as as' : List α} (has : List.Forall₂ R as as') : as' = as := by
    induction has with
    | nil => rfl
    | cons ha _ ih => rw [hR _ _ ha, ih]
  obtain ⟨kind, vars, instructions, special, samplers⟩ := m'
  obtain ⟨rfl, hvars, hinstructions, rfl, rfl⟩ := h
  obtain rfl := eq_of_forall₂ (fun _ _ hv => hv.eq same) hvars
  obtain rfl := eq_of_forall₂ (fun _ _ hi => hi.eq same) hinstructions
  rfl

variable {settings settings' : TranslatorSettings} {source : String} {kind : ProgramKind} {m : Model}

/-- **A program that can be read is the same under higher limits**, and so is what is made of it: its
shader, in which only the sizes of the banks differ, or the reason why it has none. -/
theorem readProgram_of_le (hle : settings.limits kind ≤ settings'.limits kind)
    (h : readProgram settings source kind = .ok m) :
    readProgram settings' source kind = .ok m ∧
      ((∃ before after,
        translate settings source kind =
          .ok (before ++ Glsl.bankText kind (settings.limits kind) ++ after) ∧
        translate settings' source kind =
          .ok (before ++ Glsl.bankText kind (settings'.limits kind) ++ after)) ∨
      ∃ e, translate settings source kind = .error e ∧ translate settings' source kind = .error e) := by
  obtain ⟨start, hstart, hframed, hdone⟩ := done_of_readProgram h
  have hsame := (Comparison.raise_sameTokens hle source start).run kind
  obtain ⟨hdone', hprogress⟩ := hsame.done_of_done hdone
  have hmodel := (hprogress.draft.toModel kind).eq trivial
  have h' : readProgram settings' source kind = .ok m := by
    rw [readProgram_of_done hstart hframed hdone', ← h, readProgram_of_done hstart hframed hdone]
    exact congrArg Except.ok hmodel
  obtain ⟨rfl, hwf⟩ := wellFormed_of_readProgram h
  rw [translate_eq h, translate_eq h']
  exact ⟨h', Glsl.exists_generate_of_le hle hwf (wellFormed_of_readProgram h').2⟩

/-- Limits that leave room for one small program. -/
def tight : TranslatorSettings where
  vertex :=
    { maxInstructions := some 2
      maxTemporaries := some 2
      maxEnvParams := some 10
      maxLocalParams := some 1
      maxTextureCoords := some 1 }

/-- A program that reaches every limit but one. -/
def fitting : String :=
  "!!ARBvp1.0\nTEMP a, b;\nADDRESS x;\nPARAM p[2] = \x7b program.env[8..9] \x7d;\n" ++
    "MUL a, vertex.texcoord[0], p[1];\nADD result.position, a, program.local[0];\nEND\n"

theorem readProgram_fitting : ∃ m, readProgram tight fitting .vertex = .ok m ∧
    readProgram {} fitting .vertex = .ok m ∧ ∃ before after,
      translate tight fitting .vertex =
        .ok (before ++ Glsl.bankText .vertex (tight.limits .vertex) ++ after) ∧
      translate {} fitting .vertex =
        .ok (before ++ Glsl.bankText .vertex (Limits.ofKind .vertex) ++ after) := by
  have hle : tight.limits .vertex ≤ TranslatorSettings.limits {} .vertex := by
    constructor <;> decide
  have hok : (translate tight fitting .vertex).toOption.isSome = true := by
    rw [show fitting = String.ofList _ from String.ofList_append.symm, toOption_translate_ofList]
    decide +kernel
  cases h : readProgram tight fitting .vertex with
  | error e =>
    rw [translate, h] at hok
    cases hok
  | ok m =>
    obtain ⟨h', htranslate⟩ := readProgram_of_le hle h
    refine ⟨m, rfl, h', htranslate.resolve_right ?_⟩
    rintro ⟨e, he, -⟩
    rw [he] at hok
    cases hok

end ShaderAssembly
