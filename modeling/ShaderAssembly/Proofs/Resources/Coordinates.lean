import ShaderAssembly.Proofs.Resources.Count
/-!
# Texture coordinates and their limit

Sets of texture coordinates and the texture units that have one are checked against a limit where
they are written with a subscript behind their own name. A numbered attribute stands for a set that
is not checked, and neither is the unit of a state vector whose subscript is left out.

* `VariableKind.coordUnits`: the sets and units that a variable stands for;
* `Draft.Edit.vars`, `Draft.spelledIn_of_edits`: variables are as the text has them;
* **`coords_of_readProgram`**: all sets and units of an accepted program are below the limit, but for
  these two.
-/

namespace ShaderAssembly

open Relation (ReflTransGen)

variable {kind : ProgramKind} {limits : Limits} {ts : List Token}

/-! ## Sets and units -/

/-- The texture unit of a parameter that has a set of coordinates there. -/
def ParamBinding.coordUnit? : ParamBinding → Option Nat
  | .state (.matrixRow (.texture n) _ _) => some n
  | .state (.texEnvColor n) => some n
  | _ => none

/-- The sets of texture coordinates and the texture units that a variable stands for. -/
def VariableKind.coordUnits : VariableKind → List Nat
  | .input (.vertexTexCoord n) | .input (.fragmentTexCoord n) | .output (.texCoord n) => [n]
  | k => k.params.filterMap ParamBinding.coordUnit?

/-- All sets and units of a program are below the limit. -/
def Model.CoordsBelow (limit : Nat) (m : Model) : Prop :=
  ∀ v ∈ m.vars, ∀ n ∈ v.kind.coordUnits, n < limit

/-- A set that the text names as the attribute of number `n + 8`. -/
def VariableKind.IsNumbered (ts : List Token) (k : VariableKind) (n : Nat) : Prop :=
  k = .input (.vertexTexCoord n) ∧ n < 8 ∧ Token.SpellsAttribute ts (n + 8)

/-! ## Variables are as the text has them -/

namespace Draft

variable {d d' : Draft}

theorem Edit.vars (h : Edit kind limits ts d d') : d'.vars = d.vars ∨
    ∃ v, d'.vars = d.vars ++ [v] ∧ v.kind.SpelledIn limits ts := by
  cases h with
  | note h =>
    cases h with
    | imply text offset hnew hbinding hspelled => exact .inr ⟨_, rfl, hspelled⟩
    | write h =>
      rw [(afterWrite_of_write h).1]
      exact .inl rfl
    | sample hunit h =>
      rw [(samplers_of_sample h).1]
      exact .inl rfl
  | declare hmem hname hspelled h =>
    rw [(declare_eq_ok h).2.2]
    exact .inr ⟨_, rfl, hspelled⟩
  | nameAlso hmem hname hlookup h =>
    rw [(nameAlso_eq_ok h).2]
    exact .inl rfl
  | option h =>
    rw [setOption_eq_ok h]
    exact .inl rfl
  | push hroom => exact .inl rfl

theorem spelledIn_of_edits (h : ReflTransGen (Edit kind limits ts) {} d) :
    ∀ v ∈ d.vars, v.kind.SpelledIn limits ts := by
  induction h with
  | refl => exact List.forall_mem_nil _
  | tail _ hedit ih =>
    obtain hvars | ⟨v, hvars, hv⟩ := hedit.vars
    · rwa [hvars]
    · rw [hvars]
      exact List.forall_mem_append.2 ⟨ih, List.forall_mem_singleton.2 hv⟩

end Draft

/-! ## The limit -/

theorem ParamBinding.WellFormed.hasCoords {b : ParamBinding} (h : b.WellFormed limits) {n : Nat}
    (hn : b.coordUnit? = some n) : limits.HasCoords n := by
  unfold coordUnit? at hn
  split at hn
  · cases hn
    exact h.1
  · cases hn
    exact h
  · cases hn

theorem VariableKind.WellFormed.hasCoords {k : VariableKind} (h : k.WellFormed kind limits) {n : Nat}
    (hn : n ∈ k.params.filterMap ParamBinding.coordUnit?) : k.params ≠ [] ∧ limits.HasCoords n := by
  obtain ⟨b, hb, hunit⟩ := List.mem_filterMap.1 hn
  refine ⟨List.ne_nil_of_mem hb, ?_⟩
  cases k with
  | param b' =>
    obtain rfl := List.mem_singleton.1 hb
    exact ParamBinding.WellFormed.hasCoords h hunit
  | paramArray items => exact (h.2 b hb).hasCoords hunit
  | temporary | address | input _ | output _ => cases hb

/-- A variable that is as the text has it is below the limit, numbered, or a parameter that names the
first unit where there is none. -/
theorem VariableKind.coordUnits_cases {k : VariableKind} (hspelled : k.SpelledIn limits ts)
    (hk : k.WellFormed kind limits) {n : Nat} (hn : n ∈ k.coordUnits) :
    n < limits.maxTextureCoords ∨ k.IsNumbered ts n ∨
      (k.params ≠ [] ∧ n = 0 ∧ limits.maxTextureCoords = 0) := by
  unfold coordUnits at hn
  split at hn
  · obtain rfl := List.mem_singleton.1 hn
    exact hspelled.elim .inl fun h => .inr (.inl ⟨rfl, h⟩)
  · obtain rfl := List.mem_singleton.1 hn
    exact .inl hspelled
  · obtain rfl := List.mem_singleton.1 hn
    exact .inl hspelled
  · obtain ⟨hparams, rfl | hlt⟩ := hk.hasCoords hn
    · rcases Nat.eq_zero_or_pos limits.maxTextureCoords with h | h
      · exact .inr (.inr ⟨hparams, rfl, h⟩)
      · exact .inl h
    · exact .inl hlt

theorem coords_of_edits {d : Draft} (h : ReflTransGen (Draft.Edit kind limits ts) {} d)
    (hw : (d.toModel kind).WellFormed limits) : ∀ v ∈ d.vars, ∀ n ∈ v.kind.coordUnits,
      n < limits.maxTextureCoords ∨ v.kind.IsNumbered ts n ∨
        (v.kind.params ≠ [] ∧ n = 0 ∧ limits.maxTextureCoords = 0) :=
  fun v hv _ hn => VariableKind.coordUnits_cases (Draft.spelledIn_of_edits h v hv)
    (hw.vars v hv).kind hn

variable {settings : TranslatorSettings} {source : String} {m : Model}

/-- **In an accepted program all sets of texture coordinates and all units that have one are below
the limit**, but for the sets that the text names as numbered attributes, and for the first unit of a
state vector where there is no set at all. -/
theorem coords_of_readProgram (h : readProgram settings source kind = .ok m) :
    ∃ start, Header.classify source kind = .ok start ∧
      ∀ v ∈ m.vars, ∀ n ∈ v.kind.coordUnits, n < (settings.limits kind).maxTextureCoords ∨
        v.kind.IsNumbered (Token.significant source start) n ∨
          (v.kind.params ≠ [] ∧ n = 0 ∧ (settings.limits kind).maxTextureCoords = 0) := by
  obtain ⟨-, hm⟩ := wellFormed_of_readProgram h
  obtain ⟨start, d, hstart, rfl, hedits⟩ := edits_of_readProgram h
  exact ⟨start, hstart, coords_of_edits hedits hm⟩

/-- A program that reads the second set of coordinates as a numbered attribute. -/
def numbered : String := "!!ARBvp1.0\nATTRIB a = vertex.attrib[9];\nEND\n"

/-- Settings under which vertex programs have one set of coordinates. -/
def oneCoordSet : TranslatorSettings := { vertex := { maxTextureCoords := some 1 } }

/-- What is read from it. -/
def numberedModel : Model where
  kind := .vertex
  vars := [{ name := "a", kind := .input (.vertexTexCoord 1), offset := 18 }]

theorem readProgram_numbered : readProgram oneCoordSet numbered .vertex = .ok numberedModel :=
  eq_ok_of_toOption (by
    rw [numbered, toOption_readProgram_ofList]
    decide +kernel)

/-- A program that reads the first set too, under its own name. -/
def numberedBeside : String :=
  "!!ARBvp1.0\nATTRIB a = vertex.attrib[9];\nATTRIB b = vertex.texcoord[0];\nEND\n"

/-- The second set is one of the exceptions, and the first one is below the limit. -/
theorem coords_numbered : ∃ m start, readProgram oneCoordSet numberedBeside .vertex = .ok m ∧
    Header.classify numberedBeside .vertex = .ok start ∧
    m.vars.map (·.kind) = [.input (.vertexTexCoord 1), .input (.vertexTexCoord 0)] ∧
    VariableKind.IsNumbered (Token.significant numberedBeside start) (.input (.vertexTexCoord 1)) 1 ∧
    0 < (oneCoordSet.limits .vertex).maxTextureCoords := by
  have hok : (readProgram oneCoordSet numberedBeside .vertex).toOption.map (·.vars.map (·.kind)) =
      some [.input (.vertexTexCoord 1), .input (.vertexTexCoord 0)] := by
    rw [numberedBeside, toOption_readProgram_ofList]
    decide +kernel
  obtain ⟨m, hm, hkinds⟩ := Option.map_eq_some_iff.1 hok
  obtain ⟨start, hstart, hcoords⟩ := coords_of_readProgram (eq_ok_of_toOption hm)
  have hplace {k : VariableKind} (hk : k ∈ m.vars.map (·.kind)) : ∃ v ∈ m.vars, v.kind = k :=
    List.mem_map.1 hk
  obtain ⟨v, hv, hv₁⟩ := hplace (k := .input (.vertexTexCoord 1)) (by simp [hkinds])
  obtain ⟨w, hw, hw₀⟩ := hplace (k := .input (.vertexTexCoord 0)) (by simp [hkinds])
  have hsecond := hcoords v hv 1 (by rw [hv₁]; exact List.mem_cons_self)
  have hfirst := hcoords w hw 0 (by rw [hw₀]; exact List.mem_cons_self)
  rw [hv₁] at hsecond
  rw [hw₀] at hfirst
  refine ⟨m, start, eq_ok_of_toOption hm, hstart, hkinds, ?_, ?_⟩
  · obtain hlt | hnumbered | ⟨hparams, -⟩ := hsecond
    · exact absurd hlt (by decide)
    · exact hnumbered
    · exact absurd rfl hparams
  · obtain hlt | ⟨-, -, point, name, left, number, hpart, -, -, -, hnumber⟩ | ⟨hparams, -⟩ := hfirst
    · exact hlt
    -- the text has no number eight, which would stand for the first set
    · have hfind : Header.find? .vertex numberedBeside = some 0 := by
        rw [Header.find?, numberedBeside, String.toList_ofList]
        decide +kernel
      have hten : Header.classify numberedBeside .vertex = .ok 10 := by
        rw [Header.classify, hfind]
        rfl
      have hnone : ∀ t ∈ Token.ofSource numberedBeside start, t.kind ≠ .integer 8 := by
        rw [← Except.ok.inj (hten.symm.trans hstart), numberedBeside, Token.ofSource_ofList]
        decide +kernel
      have hmem : number ∈ Token.significant numberedBeside start := hpart.subset (by simp)
      exact absurd hnumber (hnone number (List.mem_filter.1 hmem).1)
    · exact absurd rfl hparams

theorem not_coordsBelow_numbered : readProgram oneCoordSet numbered .vertex = .ok numberedModel ∧
    ¬ numberedModel.CoordsBelow (oneCoordSet.limits .vertex).maxTextureCoords :=
  ⟨readProgram_numbered, fun h =>
    absurd (h _ List.mem_cons_self 1 List.mem_cons_self) (by decide)⟩

end ShaderAssembly
