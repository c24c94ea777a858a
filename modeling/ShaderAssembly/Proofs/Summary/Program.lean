import ShaderAssembly.Proofs.Framing.Run
import ShaderAssembly.Proofs.Parsing.Characters
import ShaderAssembly.Proofs.Summary.Instruction
/-!
# Summaries of programs

What a program says about itself besides its instructions is what its instructions and options
imply.

* `Token.options`: the options of a text;
* `Model.SummarizedBy`: a program whose summary is implied by its instructions and by given options;
* `Draft.summarizedBy_option`, `Draft.summarizedBy_same`, `Draft.summarizedBy_gains`: what an
  accepted statement preserves;
* **`summarizedBy_of_readProgram`**: every accepted program is summarized by the options of its text.
-/

namespace ShaderAssembly

/-! ## Options -/

/-- The name of the option that a statement asks for, if it is an option. -/
def Token.option? : List Token → Option String
  | [word, name] => if word.text = "OPTION" then some name.text else none
  | _ => none

/-- The names of the options that a text asks for. -/
def Token.options (ts : List Token) : List String := (statements ts).filterMap option?

theorem Token.option?_of_ne {word : Token} (h : word.text ≠ "OPTION") (run : List Token) :
    option? (word :: run) = none := by
  unfold option?
  split
  · rename_i heq
    cases heq
    exact if_neg h
  · rfl

/-- The mixing of fog that an option asks for, if it is one of fog. -/
def FogMode.ofOption? : String → Option FogMode
  | "ARB_fog_exp" => some .exp
  | "ARB_fog_exp2" => some .exp2
  | "ARB_fog_linear" => some .linear
  | _ => .none

theorem FogMode.ofOption?_ne_none (name : String) : ofOption? name ≠ some .none := by
  unfold ofOption?
  split <;> nofun

/-- The features behind an option. -/
structure SpecialCases.AfterOption (special : SpecialCases) (name : String)
    (special' : SpecialCases) : Prop where
  writesFogCoord : special'.writesFogCoord = special.writesFogCoord
  writesDepth : special'.writesDepth = special.writesDepth
  positionInvariant : special'.positionInvariant = true ↔
    special.positionInvariant = true ∨ name = "ARB_position_invariant"
  fog : match FogMode.ofOption? name with
    | some mode => special.fog = .none ∧ special'.fog = mode
    | none => special'.fog = special.fog

/-- An option changes the features only, and those as its name says. -/
theorem Draft.afterOption_of_setOption {kind : ProgramKind} {d d' : Draft} {name : String}
    (h : d.setOption kind name = .ok d') :
    d'.vars = d.vars ∧ d'.instructions = d.instructions ∧ d'.samplers = d.samplers ∧
      d.special.AfterOption name d'.special := by
  unfold setOption at h
  dsimp only at h
  split at h
  · cases h
    exact ⟨rfl, rfl, rfl, rfl, rfl, by simp, rfl⟩
  · split at h
    · cases h
      exact ⟨rfl, rfl, rfl, rfl, rfl, by simp, ‹_›, rfl⟩
    · cases h
  · split at h
    · cases h
      exact ⟨rfl, rfl, rfl, rfl, rfl, by simp, ‹_›, rfl⟩
    · cases h
  · split at h
    · cases h
      exact ⟨rfl, rfl, rfl, rfl, rfl, by simp, ‹_›, rfl⟩
    · cases h
  · split at h
    · cases h
    · cases h
      exact ⟨rfl, rfl, rfl, rfl, rfl, by simp, rfl⟩
  · split at h
    · cases h
    · cases h
      exact ⟨rfl, rfl, rfl, rfl, rfl, by simp, rfl⟩
  · cases h

/-! ## Statements -/

namespace Parse

variable {kind : ProgramKind} {limits : Limits} {p q : Progress} {run : List Token}

theorem Accepts.option (h : Accepts kind limits p run q) (hoption : p.cursor.current.text = "OPTION") :
    ∃ name, Token.option? (p.cursor.current :: run) = some name ∧
      p.draft.instructions = [] ∧ p.draft.setOption kind name = .ok q.draft := by
  have e := h.step
  simp only [openedBy, hoption] at e
  unfold Parse.option at e
  obtain ⟨d, p₁, e₁, e⟩ := bind_eq_ok.1 e
  cases e₁
  dsimp only at e
  split at e
  · cases e
  rename_i hempty
  obtain ⟨name, p₁, e₁, e⟩ := bind_eq_ok.1 e
  obtain ⟨c, hword, rfl⟩ := lift_eq_ok.1 e₁
  obtain ⟨_, p₂, e₂, e⟩ := bind_eq_ok.1 e
  obtain ⟨c', hstop, rfl⟩ := lift_eq_ok.1 e
  rw [edit_eq] at e₂
  split at e₂
  case h_2 => cases e₂
  rename_i d hset
  cases e₂
  have hrest : run ++ c'.current :: c'.rest = [name] ++ c'.current :: c'.rest := by
    rw [← h.rest, (Scan.rest_of_word hword).1, (Scan.rest_of_expect (by decide) hstop).1]
    rfl
  have hrun : run = [name] := List.append_cancel_right hrest
  simp only [Bool.or_eq_true, Bool.not_eq_true', not_or, Bool.not_eq_false, List.isEmpty_iff]
    at hempty
  exact ⟨name.text, by simp [Token.option?, hrun, hoption], hempty.2, hset⟩

theorem openedBy_cases (kind : ProgramKind) (limits : Limits) (word : Token) :
    word.text = "OPTION" ∨ IsQuiet (openedBy kind limits word) ∨
      openedBy kind limits word = instruction kind limits word := by
  unfold openedBy
  split
  · exact .inl ‹_›
  case h_8 => exact .inr (.inr rfl)
  all_goals exact .inr (.inl inferInstance)

/-- What an accepted statement does to the summary: an option sets a feature, a declaration does
nothing, and an instruction is added with what it does. -/
theorem Accepts.effect (h : Accepts kind limits p run q) (hw : p.draft.WellFormed kind limits) :
    (∃ name, Token.option? (p.cursor.current :: run) = some name ∧
      p.draft.instructions = [] ∧ p.draft.setOption kind name = .ok q.draft) ∨
    Token.option? (p.cursor.current :: run) = none ∧
      (p.draft.SameSummary q.draft ∨ ∃ i, p.draft.Gains i q.draft) := by
  by_cases hoption : p.cursor.current.text = "OPTION"
  · exact .inl (h.option hoption)
  refine .inr ⟨Token.option?_of_ne hoption run, ?_⟩
  obtain hoption' | hquiet | hinstruction := openedBy_cases kind limits p.cursor.current
  · exact absurd hoption' hoption
  · exact .inl (IsQuiet.same h.step)
  · obtain ⟨i, -, -, hgains⟩ := instruction_gains hw (hinstruction ▸ h.step)
    exact .inr ⟨i, hgains⟩

end Parse

/-! ## Summaries -/

/-- A program whose summary is what its instructions and the given options imply: a unit has a
sampler of some shape just where an instruction reads a texture of that shape at that unit, the
features are those of the results that are written and of the options, and nothing writes the
position where the fixed pipeline computes it. -/
structure Model.SummarizedBy (m : Model) (options : List String) : Prop where
  samplers : ∀ unit target, m.samplers.get? unit = some target ↔
    ∃ i ∈ m.instructions, i.texture = some ⟨unit, target⟩
  writesFogCoord : m.special.writesFogCoord = true ↔
    ∃ i ∈ m.instructions, i.writtenKind? m.vars = some (.output .fogCoord)
  writesDepth : m.special.writesDepth = true ↔
    ∃ i ∈ m.instructions, i.writtenKind? m.vars = some (.output .fragDepth)
  positionInvariant : m.special.positionInvariant = true ↔ "ARB_position_invariant" ∈ options
  position : m.special.positionInvariant = true →
    ∀ i ∈ m.instructions, i.writtenKind? m.vars ≠ some (.output .position)
  fog : options.filterMap FogMode.ofOption? =
    if m.special.fog = .none then [] else [m.special.fog]

theorem Model.SummarizedBy.target_unique {m : Model} {options : List String}
    (h : m.SummarizedBy options) {i j : Instruction} (hi : i ∈ m.instructions)
    (hj : j ∈ m.instructions) {unit : Nat} {target target' : TextureTarget}
    (htarget : i.texture = some ⟨unit, target⟩) (htarget' : j.texture = some ⟨unit, target'⟩) :
    target = target' := by
  have hget := (h.samplers unit target).2 ⟨i, hi, htarget⟩
  have hget' := (h.samplers unit target').2 ⟨j, hj, htarget'⟩
  exact Option.some.inj (hget.symm.trans hget')

namespace Draft

variable {kind : ProgramKind} {limits : Limits} {d d' : Draft} {options : List String}

theorem summarizedBy_empty (kind : ProgramKind) : (toModel kind {}).SummarizedBy [] where
  samplers _ _ := by simp [toModel, SortedMap.get?, SortedMap.empty, SortedMap.find?]
  writesFogCoord := by simp [toModel]
  writesDepth := by simp [toModel]
  positionInvariant := by simp [toModel]
  position _ _ h := nomatch h
  fog := rfl

theorem WellFormed.writtenKind?_eq (hw : d.WellFormed kind limits) {i : Instruction}
    (hi : i ∈ d.instructions) {vars : List Variable} (h : d.vars <+: vars) :
    i.writtenKind? vars = i.writtenKind? d.vars := by
  have hdestination := (hw.model.instructions i hi).destination
  unfold Instruction.writtenKind?
  cases hd : i.destination with
  | none => rfl
  | some t =>
    obtain ⟨k, hk, -⟩ := hdestination t hd
    exact (kindAt_mono h hk).trans hk.symm

theorem summarizedBy_same (hw : d.WellFormed kind limits) (h : d.SameSummary d')
    (hd : (d.toModel kind).SummarizedBy options) : (d'.toModel kind).SummarizedBy options := by
  have written (k : VariableKind) : (∃ i ∈ d'.instructions, i.writtenKind? d'.vars = some k) ↔
      ∃ i ∈ d.instructions, i.writtenKind? d.vars = some k := by
    rw [h.instructions]
    exact exists_congr fun i => and_congr_right fun hi => by rw [hw.writtenKind?_eq hi h.vars]
  constructor
  case samplers =>
    intro unit target
    simp only [toModel, h.samplers, h.instructions]
    exact hd.samplers unit target
  case writesFogCoord =>
    simp only [toModel, h.special, written]
    exact hd.writesFogCoord
  case writesDepth =>
    simp only [toModel, h.special, written]
    exact hd.writesDepth
  case positionInvariant =>
    simp only [toModel, h.special]
    exact hd.positionInvariant
  case position =>
    intro hinvariant i hi hk
    simp only [toModel, h.special] at hinvariant
    obtain ⟨i, hi, hk⟩ := (written _).1 ⟨i, hi, hk⟩
    exact hd.position hinvariant i hi hk
  case fog =>
    simp only [toModel, h.special]
    exact hd.fog

theorem summarizedBy_gains (hw : d.WellFormed kind limits) {i : Instruction} (h : d.Gains i d')
    (hd : (d.toModel kind).SummarizedBy options) : (d'.toModel kind).SummarizedBy options := by
  have written (k : VariableKind) : (∃ j ∈ d'.instructions, j.writtenKind? d'.vars = some k) ↔
      (∃ j ∈ d.instructions, j.writtenKind? d.vars = some k) ∨ i.writtenKind? d'.vars = some k := by
    simp only [h.instructions, List.mem_append, List.mem_singleton, or_and_right, exists_or,
      exists_eq_left]
    refine or_congr_left (exists_congr fun j => and_congr_right fun hj => ?_)
    rw [hw.writtenKind?_eq hj h.vars]
  constructor
  case samplers =>
    intro unit target
    simp only [toModel, h.samplers, h.instructions, List.mem_append, List.mem_singleton, or_and_right,
      exists_or, exists_eq_left]
    exact or_congr_left (hd.samplers unit target)
  case writesFogCoord =>
    simp only [toModel, written]
    rw [h.special.writesFogCoord]
    exact or_congr_left hd.writesFogCoord
  case writesDepth =>
    simp only [toModel, written]
    rw [h.special.writesDepth]
    exact or_congr_left hd.writesDepth
  case positionInvariant =>
    simp only [toModel, h.special.positionInvariant]
    exact hd.positionInvariant
  case position =>
    intro hinvariant j hj hk
    simp only [toModel, h.special.positionInvariant] at hinvariant
    obtain ⟨j, hj, hk⟩ | hk := (written _).1 ⟨j, hj, hk⟩
    · exact hd.position hinvariant j hj hk
    · exact h.special.position hinvariant hk
  case fog =>
    simp only [toModel, h.special.fog]
    exact hd.fog

theorem summarizedBy_option (hinstructions : d.instructions = [])
    {name : String} (h : d.setOption kind name = .ok d')
    (hd : (d.toModel kind).SummarizedBy options) :
    (d'.toModel kind).SummarizedBy (options ++ [name]) := by
  obtain ⟨hvars', hinstructions', hsamplers, hspecial⟩ := afterOption_of_setOption h
  constructor
  case samplers =>
    simp only [toModel, hsamplers, hinstructions']
    exact hd.samplers
  case writesFogCoord =>
    simp only [toModel, hspecial.writesFogCoord, hvars', hinstructions']
    exact hd.writesFogCoord
  case writesDepth =>
    simp only [toModel, hspecial.writesDepth, hvars', hinstructions']
    exact hd.writesDepth
  case positionInvariant =>
    simp only [toModel, hspecial.positionInvariant, List.mem_append, List.mem_singleton]
    exact or_congr hd.positionInvariant eq_comm
  case position =>
    simp [toModel, hinstructions', hinstructions]
  case fog =>
    have hfog := hspecial.fog
    have hbefore : options.filterMap FogMode.ofOption? =
      if d.special.fog = .none then [] else [d.special.fog] := hd.fog
    rw [List.filterMap_append, hbefore, toModel]
    cases hmode : FogMode.ofOption? name with
    | none =>
      rw [hmode] at hfog
      simp [hmode, hfog]
    | some mode =>
      rw [hmode] at hfog
      obtain ⟨hnone, rfl⟩ := hfog
      have hne : d'.special.fog ≠ .none := fun h => FogMode.ofOption?_ne_none name (h ▸ hmode)
      simp [hmode, hnone, hne]

end Draft

/-- **The summary of an accepted program is what its instructions and the options of its text
imply**, so that a unit never has two shapes. -/
theorem summarizedBy_of_readProgram {settings : TranslatorSettings} {source : String}
    {kind : ProgramKind} {m : Model} (h : readProgram settings source kind = .ok m) :
    (∃ start, Header.classify source kind = .ok start ∧
      m.SummarizedBy (Token.options (Token.significant source start))) ∧
    ∀ i ∈ m.instructions, ∀ j ∈ m.instructions, ∀ unit target target',
      i.texture = some ⟨unit, target⟩ → j.texture = some ⟨unit, target'⟩ → target = target' := by
  have hstep : ∀ p q run ss, Parse.Accepts kind (settings.limits kind) p run q →
      p.draft.WellFormed kind (settings.limits kind) ∧
        (p.draft.toModel kind).SummarizedBy (ss.filterMap Token.option?) →
      q.draft.WellFormed kind (settings.limits kind) ∧
        (q.draft.toModel kind).SummarizedBy
          ((ss ++ [p.cursor.current :: run]).filterMap Token.option?) := by
    intro p q run ss hp ⟨hw, hd⟩
    refine ⟨hp.wellFormed hw, ?_⟩
    rw [List.filterMap_append]
    obtain ⟨name, hname, hinstructions, hset⟩ | ⟨hnone, hsame | ⟨i, hgains⟩⟩ := hp.effect hw
    · rw [List.filterMap_cons_some hname, List.filterMap_nil]
      exact Draft.summarizedBy_option hinstructions hset hd
    · rw [List.filterMap_cons_none hnone, List.filterMap_nil, List.append_nil]
      exact Draft.summarizedBy_same hw hsame hd
    · rw [List.filterMap_cons_none hnone, List.filterMap_nil, List.append_nil]
      exact Draft.summarizedBy_gains hw hgains hd
  obtain ⟨start, d, hstart, rfl, -, hd⟩ := invariant_of_readProgram
    (I := fun d ss => d.WellFormed kind (settings.limits kind) ∧
      (d.toModel kind).SummarizedBy (ss.filterMap Token.option?))
    h ⟨Draft.wellFormed_empty, Draft.summarizedBy_empty kind⟩ hstep
  exact ⟨⟨start, hstart, hd⟩, fun i hi j hj unit target target' => hd.target_unique hi hj⟩

/-- A program that asks for fog, reads a texture twice and writes the depth under another name. -/
def foggy : String :=
  "!!ARBfp1.0\nOPTION ARB_fog_exp2;\nTEMP a;\nOUTPUT d = result.depth;\nALIAS e = d;\n" ++
    "TEX a, fragment.texcoord, texture[3], 2D;\nTXP a, a, texture[3], 2D;\nMOV e.z, a;\nEND\n"

theorem readProgram_foggy : ∃ m, readProgram {} foggy .fragment = .ok m ∧
    m.SummarizedBy ["ARB_fog_exp2"] ∧ m.special = { writesDepth := true, fog := .exp2 } ∧
    m.samplers.toList = [(3, .tex2D)] := by
  have hok : (readProgram {} foggy .fragment).toOption.map
      (fun m => (m.special, m.samplers.toList)) =
        some ({ writesDepth := true, fog := .exp2 }, [(3, .tex2D)]) := by
    rw [show foggy = String.ofList _ from String.ofList_append.symm, toOption_readProgram_ofList]
    decide +kernel
  cases h : readProgram {} foggy .fragment with
  | error e =>
    rw [h] at hok
    cases hok
  | ok m =>
    rw [h] at hok
    obtain ⟨⟨start, hstart, hm⟩, -⟩ := summarizedBy_of_readProgram h
    have hoptions : (Header.classify foggy .fragment).toOption.map
        (fun start => Token.options (Token.significant foggy start)) = some ["ARB_fog_exp2"] := by
      rw [show foggy = String.ofList _ from String.ofList_append.symm,
        Header.classify_ofList]
      simp only [Token.significant, Token.ofSource_ofList]
      decide +kernel
    rw [hstart] at hoptions
    rw [show Token.options (Token.significant foggy start) = _ from Option.some.inj hoptions] at hm
    obtain ⟨hspecial, hsamplers⟩ := Prod.mk.inj (Option.some.inj hok)
    exact ⟨m, rfl, hm, hspecial, hsamplers⟩

end ShaderAssembly
