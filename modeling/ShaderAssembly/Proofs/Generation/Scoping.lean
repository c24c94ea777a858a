import Mathlib.Data.List.Nodup
import ShaderAssembly.Proofs.Generation.Declaration
import ShaderAssembly.Proofs.Generation.Program
/-!
# Scopes of whole shaders

* `lex_layout`: the tokens of lines that are laid out;
* `scopeAfter`, `ScopedBehind`: the scope behind some lines, and lines each of which is in the scope
  of those before it;
* `fine_of_scopedBehind`: the tokens of such lines are fine;
* **`lines_scopedBehind`**: the lines of a shader are in scope one behind the other;
* **`nodup_names`**: no name is declared twice.
-/

namespace ShaderAssembly.Glsl

/-! ## Tokens of laid out lines -/

theorem lex_marginText (n : Nat) (text : String) : lex (marginText n ++ text) = lex text := by
  induction n with
  | zero => rw [marginText, String.empty_append]
  | succ n ih =>
    rw [marginText, String.append_assoc, lex_signs_append (by decide) (by decide), ih]
    rfl

theorem lex_layout {ls : List Line} (h : ∀ l ∈ ls, l.Spelled) (n : Nat) :
    lex (layout n ls) = ls.flatMap Line.tokens := by
  induction ls generalizing n with
  | nil => rfl
  | cons l ls ih =>
    rw [layout, Line.laidOut, String.append_assoc, String.append_assoc, lex_marginText,
      lex_append (by decide) (by decide), Line.lex_text (h l List.mem_cons_self),
      ih (fun l hl => h l (List.mem_cons_of_mem _ hl)), List.flatMap_cons]
    rfl

/-! ## Lines behind lines -/

/-- The scope behind some lines. -/
def scopeAfter (ls : List Line) : Scope where
  names n := n ∈ ls.flatMap Line.names
  arrays n size := (n, size) ∈ ls.flatMap Line.arrays

/-- Every line is in the scope of those before it. -/
def ScopedBehind (before : List Line) : List Line → Prop
  | [] => True
  | l :: ls => l.Scoped (scopeAfter before) ∧ ScopedBehind (before ++ [l]) ls

theorem Scope.le_all (s : Scope) : s.Le .all := ⟨fun _ _ => trivial, fun _ _ _ => trivial⟩

theorem scopeAfter_le (ls more : List Line) : (scopeAfter ls).Le (scopeAfter (ls ++ more)) where
  names n h := by
    simp only [scopeAfter, List.flatMap_append]
    exact List.mem_append_left _ h
  arrays n size h := by
    simp only [scopeAfter, List.flatMap_append]
    exact List.mem_append_left _ h

theorem ScopedBehind.append {before ls ls' : List Line} (h : ScopedBehind before ls)
    (h' : ScopedBehind (before ++ ls) ls') : ScopedBehind before (ls ++ ls') := by
  induction ls generalizing before with
  | nil => rwa [List.append_nil] at h'
  | cons l ls ih =>
    refine ⟨h.1, ih h.2 ?_⟩
    rwa [List.append_assoc, List.singleton_append]

theorem scopedBehind_of_forall {before ls : List Line} (h : ∀ l ∈ ls, l.Scoped (scopeAfter before)) :
    ScopedBehind before ls := by
  induction ls generalizing before with
  | nil => trivial
  | cons l ls ih =>
    refine ⟨h l List.mem_cons_self, ih fun l' hl' => ?_⟩
    exact (h l' (List.mem_cons_of_mem _ hl')).mono (scopeAfter_le _ _)

theorem ScopedBehind.all {before ls : List Line} (h : ScopedBehind before ls) :
    ∀ l ∈ ls, l.Scoped .all := by
  induction ls generalizing before with
  | nil => simp
  | cons l ls ih =>
    intro l' hl'
    rcases List.mem_cons.1 hl' with rfl | hl'
    · exact h.1.mono (Scope.le_all _)
    · exact ih h.2 l' hl'

theorem declaredNames_lines {ls : List Line} (h : ∀ l ∈ ls, l.Scoped .all) (us : List String) :
    declaredNames (ls.flatMap Line.tokens ++ us) = ls.flatMap Line.names ++ declaredNames us := by
  induction ls with
  | nil => rfl
  | cons l ls ih =>
    rw [List.flatMap_cons, List.append_assoc, Line.declaredNames_tokens (h l List.mem_cons_self),
      ih fun l hl => h l (List.mem_cons_of_mem _ hl), List.flatMap_cons, List.append_assoc]

theorem declaredNames_flatMap {ls : List Line} (h : ∀ l ∈ ls, l.Scoped .all) :
    declaredNames (ls.flatMap Line.tokens) = ls.flatMap Line.names := by
  have hnames := declaredNames_lines h []
  rwa [List.append_nil, show declaredNames [] = [] from rfl, List.append_nil] at hnames

theorem Line.ended_tokens {l : Line} (h : l.names ≠ []) (ts : List String) :
    ended (ts ++ l.tokens) = ts ++ l.tokens := by
  have last (us : List String) {t : String} (ht : isBoundary t = true) :
      ended (ts ++ (us ++ [t])) = ts ++ (us ++ [t]) := by
    rw [← List.append_assoc, ended_concat ht]
  cases l with
  | addressType => exact last ["struct", "ARBAddress", "\x7b", "int", "x", ";", "\x7d"] (by decide)
  | bank name size => exact last ["uniform", "vec4", name, "[", toString size, "]"] (by decide)
  | sampler type name => exact last ["uniform", type, name] (by decide)
  | openMain => exact last ["void", "main", "(", ")"] (by decide)
  | declare type name value => exact last ([type, name, "="] ++ value.tokens) (by decide)
  | declareArray name items =>
    have e := last (["vec4", name, "[", toString items.length, "]", "=", "vec4", "[",
      toString items.length, "]", "("] ++ listTokens items ++ [")"]) (t := ";") (by decide)
    simpa [tokens] using e
  | version | rectangleExtension | closeMain => exact absurd rfl h
  | assign target value => exact absurd rfl h
  | discardIf condition => exact absurd rfl h

theorem Line.infix_tokens {l : Line} {name : String} {size : Nat} (h : (name, size) ∈ l.arrays) :
    ["vec4", name, "[", toString size, "]"] <:+: l.tokens := by
  cases l with
  | bank n k =>
    cases List.mem_singleton.1 h
    exact ⟨["uniform"], [";"], rfl⟩
  | declareArray n items =>
    cases List.mem_singleton.1 h
    exact ⟨[], _, rfl⟩
  | version | rectangleExtension | addressType | sampler | openMain | declare | assign | discardIf
  | closeMain => exact absurd h List.not_mem_nil

theorem scopeAfter_le_scopeAt {ls : List Line} (h : ∀ l ∈ ls, l.Scoped .all) :
    (scopeAfter ls).Le (scopeAt (ls.flatMap Line.tokens)) where
  names n hn := by
    obtain ⟨l, hl, hnl⟩ := List.mem_flatMap.1 hn
    obtain ⟨before, behind, rfl⟩ := List.append_of_mem hl
    have hne : l.names ≠ [] := List.ne_nil_of_mem hnl
    have hlines : ∀ l' ∈ before ++ [l], l'.Scoped .all := fun l' hl' => h l' (by grind)
    have hend : ended ((before ++ [l]).flatMap Line.tokens) = (before ++ [l]).flatMap Line.tokens := by
      simpa using Line.ended_tokens hne (before.flatMap Line.tokens)
    have hmem : n ∈ declaredNames (ended ((before ++ [l]).flatMap Line.tokens)) := by
      rw [hend, declaredNames_flatMap hlines]
      simp [hnl]
    have hle := scopeAt_le ((before ++ [l]).flatMap Line.tokens) (behind.flatMap Line.tokens)
    simpa using hle.names n hmem
  arrays n size ha := by
    obtain ⟨l, hl, hal⟩ := List.mem_flatMap.1 ha
    obtain ⟨before, behind, rfl⟩ := List.append_of_mem hl
    refine (Line.infix_tokens hal).trans ⟨before.flatMap Line.tokens, behind.flatMap Line.tokens, ?_⟩
    simp

/-- **The tokens of lines in scope are fine.** -/
theorem fine_of_scopedBehind {before ls : List Line} (hb : ∀ l ∈ before, l.Scoped .all)
    (h : ScopedBehind before ls) :
    Fine (before.flatMap Line.tokens) (ls.flatMap Line.tokens) := by
  induction ls generalizing before with
  | nil => trivial
  | cons l ls ih =>
    rw [List.flatMap_cons]
    refine Line.fine (h.1.mono (scopeAfter_le_scopeAt hb)) ?_
    have hl : ∀ l' ∈ before ++ [l], l'.Scoped .all := by
      intro l' hl'
      rcases List.mem_append.1 hl' with hl' | hl'
      · exact hb l' hl'
      · rw [List.mem_singleton.1 hl']
        exact h.1.mono (Scope.le_all _)
    have hrest := ih hl h.2
    rwa [List.flatMap_append, List.flatMap_singleton] at hrest

/-! ## Lines of a shader -/

variable {m : Model} {limits : Limits}

theorem mem_variableLines {f : Variable → Nat → Except Cause (Option Line)} {l : Line}
    (h : l ∈ variableLines m f) :
    ∃ v i line, m.vars[i]? = some v ∧ f v i = .ok line ∧ l ∈ line := by
  obtain ⟨⟨v, i⟩, hvi, hl⟩ := List.mem_filterMap.1 h
  dsimp only at hl
  cases hline : f v i with
  | error cause => simp [hline, Except.toOption] at hl
  | ok line =>
    rw [hline] at hl
    exact ⟨v, i, line, List.mem_zipIdx_iff_getElem?.1 hvi, hline, hl⟩

theorem header_scoped (s : Scope) : ∀ l ∈ header m limits, l.Scoped s := by
  have sampler (target : TextureTarget) : s.HasType (samplerType target) := by
    cases target <;> exact ⟨Scope.has_of_plain (by decide), by decide⟩
  intro l hl
  simp only [header, List.mem_append, List.mem_cons, List.not_mem_nil, or_false] at hl
  rcases hl with ((((rfl | hl) | hl) | rfl | rfl) | hl) | rfl
  · trivial
  · split at hl
    · rw [List.mem_singleton.1 hl]
      trivial
    · exact absurd hl List.not_mem_nil
  · split at hl
    · rw [List.mem_singleton.1 hl]
      trivial
    · exact absurd hl List.not_mem_nil
  · exact envName_spec m.kind
  · exact localName_spec m.kind
  · obtain ⟨⟨unit, target⟩, -, rfl⟩ := List.mem_map.1 hl
    exact ⟨sampler target, samplerName_spec unit⟩
  · trivial

theorem shadows_scoped (s : Scope) : ∀ l ∈ shadows m, l.Scoped s := by
  have type : s.HasType "vec4" := ⟨Scope.has_of_plain (by decide), by decide⟩
  intro l hl
  rcases List.mem_append.1 hl with hl | hl
  · split at hl
    · rw [List.mem_singleton.1 hl]
      exact ⟨type, ⟨by decide, by decide⟩, scalarVector_scoped Expr.scoped_zero⟩
    · exact absurd hl List.not_mem_nil
  · split at hl
    · rw [List.mem_singleton.1 hl]
      refine ⟨type, ⟨by decide, by decide⟩, spread_scoped (Expr.scoped_field ?_ (by decide))⟩
      exact Expr.scoped_builtIn (by decide)
    · exact absurd hl List.not_mem_nil

theorem epilogue_scoped {s : Scope} (hs : s.Covers m) :
    ∀ l ∈ epilogue m, l.Scoped s ∧ l.names = [] := by
  have fog (selector : String) (h : isBuiltIn selector = true) :
      (Expr.field (.name "gl_Fog") selector).Scoped s := ⟨Expr.scoped_builtIn (by decide), h⟩
  have coord : fogCoord.Scoped s := Expr.scoped_builtIn (by decide)
  have color : (Expr.field (.name "gl_FragColor") "rgb").Scoped s :=
    Expr.scoped_field (Expr.scoped_builtIn (by decide)) (by decide)
  have mixed {factor : Expr} (h : factor.Scoped s) : (mixFog factor).Scoped s := by
    have fogColor : (Expr.field (.field (.name "gl_Fog") "color") "rgb").Scoped s :=
      Expr.scoped_field (fog _ (by decide)) (by decide)
    refine ⟨color, Expr.scoped_call3 fogColor color ?_ (by decide)⟩
    exact Expr.scoped_call3 h Expr.scoped_zero Expr.scoped_one (by decide)
  intro l hl
  unfold epilogue at hl
  split at hl
  · rename_i hkind
    rcases List.mem_append.1 hl with hl | hl
    · split at hl
      · rename_i hfog
        rw [List.mem_singleton.1 hl]
        refine ⟨⟨Expr.scoped_builtIn (by decide), Expr.scoped_field ?_ (by decide)⟩, rfl⟩
        exact Expr.scoped_generated ⟨by decide, by decide⟩ (hs.fogCoord hkind hfog)
      · exact absurd hl List.not_mem_nil
    · split at hl
      · rw [List.mem_singleton.1 hl]
        exact ⟨⟨Expr.scoped_builtIn (by decide), Scope.has_of_plain (by decide)⟩, rfl⟩
      · exact absurd hl List.not_mem_nil
  · rename_i hkind
    rcases List.mem_append.1 hl with hl | hl
    · split at hl
      · rename_i hdepth
        rw [List.mem_singleton.1 hl]
        refine ⟨⟨Expr.scoped_builtIn (by decide), Expr.scoped_field ?_ (by decide)⟩, rfl⟩
        exact Expr.scoped_generated ⟨by decide, by decide⟩ (hs.depth hkind hdepth)
      · exact absurd hl List.not_mem_nil
    · cases hmode : m.special.fog with
      | none => simp [hmode, fogFactor] at hl
      | exp =>
        simp only [hmode, fogFactor, Option.map_some, Option.toList_some, List.mem_singleton] at hl
        subst hl
        exact ⟨mixed (Expr.scoped_call1 ⟨fog _ (by decide), coord⟩ (by decide)), rfl⟩
      | exp2 =>
        simp only [hmode, fogFactor, Option.map_some, Option.toList_some, List.mem_singleton] at hl
        subst hl
        have product : (Expr.group (.binary .mul fogDensity fogCoord)).Scoped s :=
          ⟨fog _ (by decide), coord⟩
        exact ⟨mixed (Expr.scoped_call1 ⟨product, product⟩ (by decide)), rfl⟩
      | linear =>
        simp only [hmode, fogFactor, Option.map_some, Option.toList_some, List.mem_singleton] at hl
        subst hl
        exact ⟨mixed ⟨⟨fog _ (by decide), coord⟩, fog _ (by decide)⟩, rfl⟩

/-! ## Names of a shader -/

/-- The names that stand for scalar results. -/
def shadowNames (m : Model) : List String :=
  (if m.kind = .vertex && m.special.writesFogCoord then [fogCoordName] else []) ++
    (if m.kind = .fragment && m.special.writesDepth then [depthName] else [])

/-- The names of the variables of the shader that stand for variables of the program. -/
def storedNames (m : Model) : List String :=
  (m.vars.zipIdx.filter fun e => isStored e.1.kind).map fun e => variableName m e.2

theorem header_names (m : Model) (limits : Limits) : (header m limits).flatMap Line.names =
    (if m.kind = .vertex then ["ARBAddress", "x"] else []) ++ [envName m.kind, localName m.kind] ++
      m.samplers.toList.map (fun e => samplerName e.1) ++ ["main"] := by
  have samplers (es : List (Nat × TextureTarget)) :
      (es.map fun e => Line.sampler (samplerType e.2) (samplerName e.1)).flatMap Line.names =
        es.map fun e => samplerName e.1 := by
    rw [List.flatMap_map, List.map_eq_flatMap]
    rfl
  have extension (b : Bool) :
      (if b then [Line.rectangleExtension] else []).flatMap Line.names = [] := by cases b <;> rfl
  simp only [header, List.flatMap_append, samplers, extension]
  cases m.kind <;> rfl

/-- Lines that declare one name each. -/
theorem flatMap_eq_of_map {ls : List Line} {ns : List String}
    (h : ls.map Line.names = ns.map ([·])) : ls.flatMap Line.names = ns := by
  rw [List.flatMap_def, h, ← List.flatMap_def]
  simp

theorem shadows_names (m : Model) : (shadows m).map Line.names = (shadowNames m).map ([·]) := by
  unfold shadows shadowNames
  rw [List.map_append, List.map_append]
  congr 1 <;> split <;> rfl

theorem declarations_names (hm : m.WellFormed limits) :
    (variableLines m (declaration m limits)).map Line.names = (storedNames m).map ([·]) := by
  rw [variableLines, storedNames, List.map_filterMap, List.map_map, ← List.filterMap_eq_map,
    List.filterMap_filter]
  refine List.filterMap_congr ?_
  rintro ⟨v, i⟩ hvi
  obtain ⟨line, hline, hdeclares⟩ := declaration_yields hm (Scope.all_hasGlobals _ _)
    (List.mem_zipIdx_iff_getElem?.1 hvi)
  simp only [hline, Except.toOption, Option.join_some, hdeclares.names]
  rfl

/-! ## The scope of a shader -/

theorem mem_storedNames {i : Nat} {k : VariableKind} (hk : kindAt m.vars i = some k)
    (h : isStored k = true) : variableName m i ∈ storedNames m := by
  obtain ⟨v, hv, rfl⟩ := Option.map_eq_some_iff.1 hk
  refine List.mem_map.2 ⟨(v, i), List.mem_filter.2 ⟨?_, h⟩, rfl⟩
  exact List.mem_zipIdx_iff_getElem?.2 hv

theorem hasGlobals_header (m : Model) (limits : Limits) (more : List Line) :
    (scopeAfter (header m limits ++ more)).HasGlobals m.kind limits := by
  have bank (name : String) (size : Nat) (h : Line.bank name size ∈ header m limits) :
      (scopeAfter (header m limits)).names name ∧ (scopeAfter (header m limits)).arrays name size :=
    ⟨List.mem_flatMap.2 ⟨_, h, List.mem_cons_self⟩, List.mem_flatMap.2 ⟨_, h, List.mem_cons_self⟩⟩
  have hle := scopeAfter_le (header m limits) more
  refine ⟨?_, ?_, fun hkind => hle.names _ ?_⟩
  · have h := bank (envName m.kind) limits.maxEnvParams (by simp [header])
    exact ⟨hle.names _ h.1, hle.arrays _ _ h.2⟩
  · have h := bank (localName m.kind) limits.maxLocalParams (by simp [header])
    exact ⟨hle.names _ h.1, hle.arrays _ _ h.2⟩
  · refine List.mem_flatMap.2 ⟨.addressType, ?_, List.mem_cons_self⟩
    simp [header, hkind]

/-- The lines that declare something. -/
def declarations (m : Model) (limits : Limits) : List Line :=
  header m limits ++ shadows m ++ variableLines m (declaration m limits)

theorem covers_declarations (hm : m.WellFormed limits) (more : List Line) :
    (scopeAfter (declarations m limits ++ more)).Covers m := by
  have hle := scopeAfter_le (declarations m limits) more
  have inHeader {n : String} (h : n ∈ (header m limits).flatMap Line.names) :
      n ∈ (declarations m limits).flatMap Line.names := by
    rw [declarations, List.flatMap_append, List.flatMap_append]
    exact List.mem_append_left _ (List.mem_append_left _ h)
  have inShadows {n : String} (h : n ∈ shadowNames m) :
      n ∈ (declarations m limits).flatMap Line.names := by
    rw [declarations, List.flatMap_append, List.flatMap_append, flatMap_eq_of_map (shadows_names m)]
    exact List.mem_append_left _ (List.mem_append_right _ h)
  refine ⟨fun unit target h => hle.names _ (inHeader ?_), fun i k hk hs => hle.names _ ?_,
    fun i items hi => hle.arrays _ _ ?_, fun hkind h => hle.names _ (inShadows ?_),
    fun hkind h => hle.names _ (inShadows ?_)⟩
  · rw [header_names]
    have hmem : (unit, target) ∈ m.samplers.toList := SortedMap.mem_of_get? h
    exact List.mem_append_left _ (List.mem_append_right _ (List.mem_map.2 ⟨_, hmem, rfl⟩))
  · have hmem := mem_storedNames hk hs
    rw [← flatMap_eq_of_map (declarations_names hm)] at hmem
    simp only [scopeAfter, declarations, List.flatMap_append]
    exact List.mem_append_right _ hmem
  · obtain ⟨v, hv, hkind⟩ := Option.map_eq_some_iff.1 hi
    obtain ⟨line, hline, hdeclares⟩ := declaration_yields hm (Scope.all_hasGlobals _ limits) hv
    have harrays := hdeclares.arrays
    rw [hkind, arraysOf] at harrays
    obtain ⟨l, hl, hmem⟩ := List.mem_flatMap.1 (harrays ▸ List.mem_singleton_self _)
    refine List.mem_flatMap.2 ⟨l, List.mem_append_right _ (List.mem_filterMap.2 ⟨(v, i), ?_, ?_⟩), hmem⟩
    · exact List.mem_zipIdx_iff_getElem?.2 hv
    · simpa [hline, Except.toOption] using hl
  · simp [shadowNames, hkind, h]
  · simp [shadowNames, hkind, h]

/-- The lines behind the declarations are in scope and declare nothing. -/
theorem body_scoped (hm : m.WellFormed limits) {s : Scope} (hs : s.Covers m)
    (h : ∀ i ∈ m.instructions, biasesRectangle i = false) :
    ∀ l ∈ statements m ++ variableLines m (handOver m) ++ epilogue m ++ [.closeMain],
      l.Scoped s ∧ l.names = [] := by
  intro l hl
  simp only [List.mem_append, List.mem_singleton] at hl
  rcases hl with ((hl | hl) | hl) | rfl
  · obtain ⟨i, hi, hsome⟩ := List.mem_filterMap.1 hl
    obtain ⟨line, hline, hscoped⟩ := statement_yields hm hs (hm.instructions i hi) (h i hi)
    rw [hline] at hsome
    cases hsome
    exact hscoped
  · obtain ⟨v, i, line, hv, hline, hmem⟩ := mem_variableLines hl
    obtain ⟨line', hline', hscoped⟩ := handOver_yields hm hs hv
    rw [hline] at hline'
    cases hline'
    exact hscoped l hmem
  · exact epilogue_scoped hs l hl
  · exact ⟨trivial, rfl⟩

theorem lines_eq (m : Model) (limits : Limits) : lines m limits = declarations m limits ++
    (statements m ++ variableLines m (handOver m) ++ epilogue m ++ [.closeMain]) := by
  simp only [lines, declarations, List.append_assoc]

/-- **The lines of a shader are in scope one behind the other.** -/
theorem lines_scopedBehind (hm : m.WellFormed limits)
    (h : ∀ i ∈ m.instructions, biasesRectangle i = false) :
    ScopedBehind [] (lines m limits) := by
  rw [lines_eq, declarations]
  refine .append (.append (.append ?_ ?_) ?_) ?_
  · exact scopedBehind_of_forall (header_scoped _)
  · exact scopedBehind_of_forall (shadows_scoped _)
  · refine scopedBehind_of_forall fun l hl => ?_
    obtain ⟨v, i, line, hv, hline, hmem⟩ := mem_variableLines hl
    have hglobals := hasGlobals_header m limits (shadows m)
    obtain ⟨line', hline', hdeclares⟩ := declaration_yields hm hglobals hv
    rw [hline] at hline'
    cases hline'
    exact hdeclares.inScope l hmem
  · refine scopedBehind_of_forall fun l hl => ?_
    have hcovers := covers_declarations hm []
    rw [List.append_nil] at hcovers
    exact (body_scoped hm hcovers h l hl).1

/-! ## Distinct names -/

/-- The names that are declared before `main`. -/
def globalNames (m : Model) : List String :=
  (if m.kind = .vertex then ["ARBAddress", "x"] else []) ++ [envName m.kind, localName m.kind] ++
    m.samplers.toList.map fun e => samplerName e.1

theorem nodup_samplerNames (m : Model) :
    (m.samplers.toList.map fun e => samplerName e.1).Nodup := by
  refine List.pairwise_map.2 (m.samplers.sorted.imp fun hlt h => ?_)
  exact absurd (samplerName_injective h) (Nat.ne_of_lt hlt)

theorem nodup_storedNames (hm : m.WellFormed limits) : (storedNames m).Nodup := by
  have hplaces : (m.vars.zipIdx.filter fun e => isStored e.1.kind).Nodup := by
    refine (List.Nodup.of_map Prod.snd ?_).filter _
    rw [List.zipIdx_map_snd]
    exact List.nodup_range'
  refine List.Nodup.map_on ?_ hplaces
  rintro ⟨v, i⟩ hv ⟨w, j⟩ hw h
  have hv := List.mem_zipIdx_iff_getElem?.1 (List.mem_of_mem_filter hv)
  have hw := List.mem_zipIdx_iff_getElem?.1 (List.mem_of_mem_filter hw)
  obtain rfl : i = j := variableName_injective hm h
  rw [Prod.mk.injEq]
  exact ⟨Option.some.inj (hv.symm.trans hw), rfl⟩

/-- The names that are none of a sampler or of a variable of the program. -/
def fixedNames (m : Model) : List String :=
  (if m.kind = .vertex then ["ARBAddress", "x"] else []) ++ [envName m.kind, localName m.kind] ++
    "main" :: shadowNames m

theorem fixedNames_spec (m : Model) : (fixedNames m).Nodup ∧
    ∀ n ∈ fixedNames m, mark n ≠ some 't' ∧ mark n ≠ some 'u' ∧ mark n ≠ some 'i' := by
  unfold fixedNames shadowNames
  generalize m.kind = kind, m.special.writesFogCoord = fog, m.special.writesDepth = depth
  cases kind <;> cases fog <;> cases depth <;> decide

theorem nodup_samplers_stored (hm : m.WellFormed limits) :
    (m.samplers.toList.map (fun e => samplerName e.1) ++ storedNames m).Nodup := by
  refine List.nodup_append.2 ⟨nodup_samplerNames m, nodup_storedNames hm, ?_⟩
  rintro a ha b hb rfl
  obtain ⟨e, -, rfl⟩ := List.mem_map.1 ha
  obtain ⟨e', -, he⟩ := List.mem_map.1 hb
  have hmark := mark_variableName m e'.2
  rw [he, mark_samplerName] at hmark
  exact absurd hmark (by decide)

/-- **No name is declared twice.** -/
theorem nodup_names (hm : m.WellFormed limits) :
    (globalNames m ++ "main" :: (shadowNames m ++ storedNames m)).Nodup := by
  have hperm : (globalNames m ++ "main" :: (shadowNames m ++ storedNames m)).Perm
      (fixedNames m ++ (m.samplers.toList.map (fun e => samplerName e.1) ++ storedNames m)) := by
    have hcomm : ((m.samplers.toList.map fun e => samplerName e.1) ++ "main" :: shadowNames m).Perm
        ("main" :: shadowNames m ++ m.samplers.toList.map fun e => samplerName e.1) :=
      List.perm_append_comm
    simp only [globalNames, fixedNames, List.append_assoc]
    refine .append_left _ (.append_left _ ?_)
    simpa only [List.append_assoc, List.cons_append] using hcomm.append_right (storedNames m)
  obtain ⟨hfixed, hmarks⟩ := fixedNames_spec m
  rw [hperm.nodup_iff]
  refine List.nodup_append.2 ⟨hfixed, nodup_samplers_stored hm, ?_⟩
  rintro a ha b hb rfl
  obtain ⟨hsampler, huser, himplicit⟩ := hmarks a ha
  rcases List.mem_append.1 hb with hb | hb
  · obtain ⟨e, -, rfl⟩ := List.mem_map.1 hb
    exact hsampler (mark_samplerName e.1)
  · obtain ⟨e, -, rfl⟩ := List.mem_map.1 hb
    exact (mark_variableName m e.2).elim huser himplicit

/-! ## Texts of shaders -/

/-- The tokens of a shader in which everything that has to be declared is declared once, in a
statement before the one that uses it, and constant places lie inside their arrays. -/
structure WellScoped (ts : List String) : Prop where
  once : (declaredNames ts).Nodup
  declared : ∀ t ∈ ts, needsDeclaration t = true → t ∈ declaredNames ts
  fine : ∀ before t behind, ts = before ++ t :: behind → TokenFine before t behind

/-- The tokens of a shader fall into globals, the declarations at the top of `main`, and the rest of
`main`, which declares nothing. -/
def Arranged (m : Model) (ts : List String) : Prop :=
  ∃ (globals : List String) (locals : List (List String)) (body : List String),
    ts = globals ++ ["void", "main", "(", ")", "\x7b"] ++ locals.flatten ++ body ++ ["\x7d"] ∧
    declaredNames globals = globalNames m ∧
    locals.map declaredNames = (shadowNames m ++ storedNames m).map ([·]) ∧
    declaredNames body = []

theorem lines_names (hm : m.WellFormed limits)
    (h : ∀ i ∈ m.instructions, biasesRectangle i = false) :
    (lines m limits).flatMap Line.names = globalNames m ++ "main" :: (shadowNames m ++ storedNames m) := by
  have hbody : (statements m ++ variableLines m (handOver m) ++ epilogue m ++
      [Line.closeMain]).flatMap Line.names = [] := by
    refine List.flatMap_eq_nil_iff.2 fun l hl => ?_
    exact (body_scoped hm (Scope.all_covers m) h l hl).2
  rw [lines_eq, List.flatMap_append, hbody, declarations, List.flatMap_append, List.flatMap_append,
    header_names, flatMap_eq_of_map (shadows_names m), flatMap_eq_of_map (declarations_names hm)]
  simp [globalNames]

/-- The tokens of lines that are in scope, and that declare no name twice, are well-scoped. -/
theorem wellScoped_of_scopedBehind {ls : List Line} (h : ScopedBehind [] ls)
    (hnames : (ls.flatMap Line.names).Nodup) : WellScoped (ls.flatMap Line.tokens) := by
  have hfine : Fine [] (ls.flatMap Line.tokens) := fine_of_scopedBehind (List.forall_mem_nil _) h
  refine ⟨?_, fun t ht hd => ?_, fun before t behind hts => ?_⟩
  · rwa [declaredNames_flatMap h.all]
  · obtain ⟨before, behind, hts⟩ := List.append_of_mem ht
    rw [hts]
    exact (hfine.split hts).mem hd
  · exact hfine.split hts

theorem wellScoped_lines (hm : m.WellFormed limits)
    (h : ∀ i ∈ m.instructions, biasesRectangle i = false) :
    WellScoped ((lines m limits).flatMap Line.tokens) := by
  refine wellScoped_of_scopedBehind (lines_scopedBehind hm h) ?_
  rw [lines_names hm h]
  exact nodup_names hm

theorem arranged_lines (hm : m.WellFormed limits)
    (h : ∀ i ∈ m.instructions, biasesRectangle i = false) :
    Arranged m ((lines m limits).flatMap Line.tokens) := by
  have hall := (lines_scopedBehind hm h).all
  have hheader : header m limits = (header m limits).dropLast ++ [.openMain] := by
    rw [header, List.dropLast_concat]
  have hlines : lines m limits = (header m limits).dropLast ++ [.openMain] ++
      (shadows m ++ variableLines m (declaration m limits)) ++
      (statements m ++ variableLines m (handOver m) ++ epilogue m) ++ [.closeMain] := by
    rw [← hheader]
    simp only [lines, List.append_assoc]
  refine ⟨(header m limits).dropLast.flatMap Line.tokens,
    (shadows m ++ variableLines m (declaration m limits)).map Line.tokens,
    (statements m ++ variableLines m (handOver m) ++ epilogue m).flatMap Line.tokens, ?_, ?_, ?_, ?_⟩
  · rw [hlines]
    simp only [List.flatMap_def, List.map_append, List.flatten_append]
    rfl
  · have hscoped : ∀ l ∈ (header m limits).dropLast, l.Scoped .all := fun l hl =>
      header_scoped _ l (List.dropLast_subset _ hl)
    have hnames := header_names m limits
    rw [hheader, List.flatMap_append] at hnames
    rw [declaredNames_flatMap hscoped]
    exact List.append_cancel_right hnames
  · rw [List.map_map, List.map_append (f := ([·])), ← shadows_names,
      ← declarations_names hm, ← List.map_append]
    refine List.map_congr_left fun l hl => ?_
    have hmem : l ∈ lines m limits := by
      rw [hlines]
      exact List.mem_append_left _ (List.mem_append_left _ (List.mem_append_right _ hl))
    have hsingle : ∀ k ∈ [l], k.Scoped .all := by simpa using hall l hmem
    have hline := declaredNames_flatMap hsingle
    rwa [List.flatMap_singleton, List.flatMap_singleton] at hline
  · have hbody : ∀ l ∈ statements m ++ variableLines m (handOver m) ++ epilogue m,
        l.Scoped .all ∧ l.names = [] := fun l hl =>
      body_scoped hm (Scope.all_covers m) h l (List.mem_append_left _ hl)
    rw [declaredNames_flatMap fun l hl => (hbody l hl).1]
    exact List.flatMap_eq_nil_iff.2 fun l hl => (hbody l hl).2

end ShaderAssembly.Glsl

namespace ShaderAssembly

open Glsl

/-- **The shader of a program declares every name that it uses, once, before it is used and at its
place.** -/
theorem wellScoped_of_translate {settings : TranslatorSettings} {source : String}
    {kind : ProgramKind} {text : String} (h : translate settings source kind = .ok text) :
    WellScoped (lex text) ∧
      ∃ m, readProgram settings source kind = .ok m ∧ Arranged m (lex text) := by
  obtain ⟨m, hread, -, hm, hfine, rfl⟩ := model_of_translate h
  have hall := (lines_scopedBehind hm hfine).all
  rw [lex_layout (fun l hl => (hall l hl).spelled)]
  exact ⟨wellScoped_lines hm hfine, m, hread, arranged_lines hm hfine⟩

/-- A program with an address register and an array. -/
def manyNames : String :=
  "!!ARBvp1.0\nADDRESS a;\nPARAM p[2] = { program.env[0..1] };\nARL a.x, vertex.fogcoord.x;\n" ++
    "ADD result.fogcoord, p[a.x], p[1];\nEND\n"

theorem wellScoped_manyNames :
    ∃ text, translate {} manyNames .vertex = .ok text ∧ WellScoped (lex text) := by
  have hok : (translate {} manyNames .vertex).toOption.isSome = true := by
    rw [show manyNames = String.ofList _ from String.ofList_append.symm, toOption_translate_ofList]
    decide +kernel
  cases h : translate {} manyNames .vertex with
  | error e =>
    rw [h] at hok
    cases hok
  | ok text => exact ⟨text, rfl, (wellScoped_of_translate h).1⟩

end ShaderAssembly
