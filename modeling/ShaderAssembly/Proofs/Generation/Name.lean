import ShaderAssembly.Glsl.Name
import ShaderAssembly.Proofs.Generation.Scope
import ShaderAssembly.Proofs.WellFormed
/-!
# The names in a shader

* `isBuiltIn_gl`: names that start with `gl_` are those of the language;
* `variableName_spec`, `samplerName_spec`, …: generated names are words that start with `arb_`;
* **`variableName_injective`**: distinct variables of a well-formed program have distinct names.
-/

namespace ShaderAssembly.Glsl

/-! ## Names of the language -/

theorem isWord_append {a b : String} (ha : isWord a = true)
    (hb : b.toList.all isNameChar = true) : isWord (a ++ b) = true := by
  simp only [isWord, Bool.and_eq_true, Bool.not_eq_true', List.isEmpty_eq_false_iff] at ha ⊢
  rw [String.toList_append, List.all_append, ha.2, hb]
  exact ⟨List.append_ne_nil_of_left_ne_nil ha.1 _, rfl⟩

theorem all_isNameChar_of_isWord {a : String} (h : isWord a = true) :
    a.toList.all isNameChar = true := by
  simp only [isWord, Bool.and_eq_true] at h
  exact h.2

theorem isWord_append_toString {a : String} (ha : isWord a = true) (n : Nat) :
    isWord (a ++ toString n) = true :=
  isWord_append ha (all_isNameChar_of_isWord (isWord_toString n))

theorem isBuiltIn_gl {rest : String} (h : rest.toList.all isNameChar = true) :
    isBuiltIn ("gl_" ++ rest) = true := by
  have hlist : ("gl_" ++ rest).toList = 'g' :: 'l' :: '_' :: rest.toList := String.toList_append
  have hword : isWord ("gl_" ++ rest) = true := isWord_append (by decide) h
  have htype : typeNames.contains ("gl_" ++ rest) = false := by
    have hne : ∀ t ∈ typeNames, "gl_".toList.isPrefixOf t.toList = false := by decide
    refine Bool.eq_false_iff.2 fun hc => ?_
    have hp := hne _ (List.contains_iff_mem.1 hc)
    rw [hlist] at hp
    exact absurd hp (by simp)
  have hdecl : needsDeclaration ("gl_" ++ rest) = false := by
    have hprefix : isGenerated ("gl_" ++ rest) = false := by
      rw [isGenerated, hlist]
      rfl
    have hne : ("gl_" ++ rest) ≠ "ARBAddress" := fun e => by
      have he := congrArg String.toList e
      rw [hlist] at he
      exact absurd (List.cons.inj he).1 (by decide)
    rw [needsDeclaration, hprefix]
    simpa using hne
  rw [isBuiltIn, hword, htype, hdecl]
  rfl

/-- A selection of components is no name that could be taken for another. -/
theorem isBuiltIn_components {cs : List Component} (h : cs ≠ []) :
    isBuiltIn (Component.text cs) = true := by
  have hletters : ∀ c ∈ (Component.text cs).toList, "xyzw".toList.contains c = true := by
    rw [Component.text, String.toList_ofList]
    intro c hc
    obtain ⟨d, -, rfl⟩ := List.mem_map.1 hc
    cases d <;> decide
  have other {word : String} (hw : word.toList.all ("xyzw".toList.contains ·) = false) :
      Component.text cs ≠ word := by
    rintro rfl
    rw [List.all_eq_true.2 hletters] at hw
    cases hw
  have hword : isWord (Component.text cs) = true := by
    rw [isWord, Component.text, String.toList_ofList]
    have hname : ∀ c : Component, isNameChar c.letter = true := fun c => by
      cases c <;> decide
    simp [h, hname]
  have htype : typeNames.contains (Component.text cs) = false := by
    have hne : ∀ t ∈ typeNames, t.toList.all ("xyzw".toList.contains ·) = false := by decide
    refine Bool.eq_false_iff.2 fun hc => ?_
    exact other (hne _ (List.contains_iff_mem.1 hc)) rfl
  have hgen : isGenerated (Component.text cs) = false := by
    refine Bool.eq_false_iff.2 fun hp => ?_
    have hmem := (List.isPrefixOf_iff_prefix.1 hp).subset (by decide : 'a' ∈ "arb_".toList)
    exact absurd (hletters 'a' hmem) (by decide)
  rw [isBuiltIn, hword, htype, needsDeclaration, hgen, beq_eq_false_iff_ne.2 (other (by decide))]
  rfl

/-! ## Generated names -/

theorem typeNames_of_isGenerated {name : String} (h : isGenerated name = true) :
    typeNames.contains name = false := by
  have hne : ∀ t ∈ typeNames, isGenerated t = false := by decide
  refine Bool.eq_false_iff.2 fun hc => ?_
  rw [hne _ (List.contains_iff_mem.1 hc)] at h
  cases h

theorem isGenerated_toString (n : Nat) : isGenerated (toString n) = false := by
  have hdigit : ∀ c ∈ (toString n).toList, c.isDigit = true := fun c hc => by
    have hc' : c ∈ Nat.toDigits 10 n := by simpa using hc
    exact Nat.isDigit_of_mem_toDigits (by decide) (by decide) hc'
  rw [isGenerated]
  cases e : (toString n).toList with
  | nil => rfl
  | cons c cs =>
    refine Bool.eq_false_iff.2 fun h => ?_
    obtain ⟨rfl, -⟩ := List.cons_prefix_cons.1 (List.isPrefixOf_iff_prefix.1 h)
    exact absurd (hdigit 'a' (e ▸ List.mem_cons_self)) (by decide)

theorem Expr.scoped_generated {s : Scope} {name : String} (h : isGeneratedName name)
    (hs : s.names name) : (Expr.name name).Scoped s :=
  ⟨⟨h.1, fun _ => hs⟩, typeNames_of_isGenerated h.2⟩

theorem startsNumber_of_isGenerated {name : String} (h : isGenerated name = true) :
    startsNumber name = false := by
  obtain ⟨rest, hrest⟩ := List.isPrefixOf_iff_prefix.1 h
  rw [startsNumber, ← hrest]
  rfl

theorem isGenerated_append {a : String} (h : isGenerated a = true) (b : String) :
    isGenerated (a ++ b) = true := by
  rw [isGenerated, List.isPrefixOf_iff_prefix] at h ⊢
  rw [String.toList_append]
  exact h.trans (List.prefix_append _ _)

theorem samplerName_spec (unit : Nat) : isGeneratedName (samplerName unit) :=
  ⟨isWord_append_toString (a := "arb_tex") (by decide) unit,
    isGenerated_append (a := "arb_tex") (by decide) _⟩

theorem envName_spec (kind : ProgramKind) : isGeneratedName (envName kind) := by
  cases kind <;> exact ⟨by decide, by decide⟩

theorem localName_spec (kind : ProgramKind) : isGeneratedName (localName kind) := by
  cases kind <;> exact ⟨by decide, by decide⟩

/-! ## Names of variables -/

theorem isNameChar_of_mem_escape {c d : Char} (hc : isWordChar c = true) (hd : d ∈ escape c) :
    isNameChar d = true := by
  unfold escape at hd
  split at hd
  · rcases List.mem_cons.1 hd with rfl | hd
    · decide
    · rw [List.mem_singleton.1 hd]
      decide
  split at hd
  · rcases List.mem_cons.1 hd with rfl | hd
    · decide
    · rw [List.mem_singleton.1 hd]
      decide
  · rename_i h h'
    rw [List.mem_singleton.1 hd]
    simp only [isWordChar, isWordStart, Bool.or_eq_true, beq_iff_eq, h, h', or_false] at hc
    simpa [isNameChar, Char.isAlphanum] using .inl hc

/-- The escape of a word is made of the characters of words of the language. -/
theorem userName_spec {name : String} (h : name.toList.all isWordChar = true) :
    isGeneratedName (userName name) := by
  refine ⟨isWord_append (by decide) ?_, isGenerated_append (by decide) _⟩
  rw [String.toList_ofList, List.all_eq_true]
  intro d hd
  obtain ⟨c, hc, hd⟩ := List.mem_flatMap.1 hd
  exact isNameChar_of_mem_escape (List.all_eq_true.1 h c hc) hd

theorem implicitName_spec (i : Nat) : isGeneratedName s!"arb_implicit{i}" :=
  ⟨isWord_append_toString (a := "arb_implicit") (by decide) i,
    isGenerated_append (a := "arb_implicit") (by decide) _⟩

/-- The name of a variable is a word that only generated shaders use. -/
theorem variableName_spec {m : Model} {limits : Limits} (hm : m.WellFormed limits) (i : Nat) :
    isGeneratedName (variableName m i) := by
  unfold variableName
  split
  · rename_i v hv
    split
    · exact implicitName_spec i
    · rename_i h
      exact userName_spec ((hm.vars v (List.mem_of_getElem? hv)).name (by simpa using h))
  · exact implicitName_spec i

/-- The escape of a character ends where that of the next one starts. -/
theorem escape_append_injective {c d : Char} {cs ds : List Char}
    (h : escape c ++ cs = escape d ++ ds) : c = d ∧ cs = ds := by
  grind [escape]

theorem flatMap_escape_injective {cs ds : List Char} (h : cs.flatMap escape = ds.flatMap escape) :
    cs = ds := by
  have hne (c : Char) : escape c ≠ [] := by grind [escape]
  induction cs generalizing ds with
  | nil =>
    cases ds with
    | nil => rfl
    | cons d ds => simp [hne] at h
  | cons c cs ih =>
    cases ds with
    | nil => simp [hne] at h
    | cons d ds =>
      rw [List.flatMap_cons, List.flatMap_cons] at h
      obtain ⟨rfl, ht⟩ := escape_append_injective h
      rw [ih ht]

theorem userName_injective {name name' : String} (h : userName name = userName name') :
    name = name' := by
  have hl := congrArg String.toList h
  simp only [userName, String.toList_append, String.toList_ofList, List.append_cancel_left_eq] at hl
  exact String.toList_inj.1 (flatMap_escape_injective hl)

/-- The character by which generated names of different uses differ. -/
def mark (name : String) : Option Char := name.toList[4]?

theorem mark_userName (name : String) : mark (userName name) = some 'u' := by
  rw [mark, userName, String.toList_append]
  rfl

theorem mark_append {a : String} (h : a.toList.length = 4 + 1 := by decide) (b : String) :
    mark (a ++ b) = mark a := by
  rw [mark, String.toList_append, List.getElem?_append_left (by omega)]
  rfl

theorem mark_implicitName (i : Nat) : mark s!"arb_implicit{i}" = some 'i' := by
  change mark ("arb_i" ++ "mplicit" ++ toString i) = _
  rw [String.append_assoc, mark_append]
  rfl

theorem mark_samplerName (unit : Nat) : mark (samplerName unit) = some 't' := by
  change mark ("arb_t" ++ "ex" ++ toString unit) = _
  rw [String.append_assoc, mark_append]
  rfl

theorem userName_ne_implicit (name : String) (i : Nat) : userName name ≠ s!"arb_implicit{i}" := by
  intro h
  have hmark := congrArg mark h
  rw [mark_userName, mark_implicitName] at hmark
  exact absurd hmark (by decide)

theorem append_toString_injective {a : String} {i j : Nat}
    (h : a ++ toString i = a ++ toString j) : i = j := by
  have hl := congrArg String.toList h
  rw [String.toList_append, String.toList_append, List.append_cancel_left_eq] at hl
  exact toString_injective (String.toList_inj.1 hl)

theorem implicitName_injective {i j : Nat} (h : s!"arb_implicit{i}" = s!"arb_implicit{j}") : i = j :=
  append_toString_injective (a := "arb_implicit") h

theorem samplerName_injective {i j : Nat} (h : samplerName i = samplerName j) : i = j :=
  append_toString_injective (a := "arb_tex") h

/-- A variable has the name that it was declared under, escaped, or a numbered one. -/
theorem variableName_cases (m : Model) (i : Nat) :
    (∃ v, m.vars[i]? = some v ∧ v.implicit = false ∧ variableName m i = userName v.name) ∨
      variableName m i = s!"arb_implicit{i}" := by
  unfold variableName
  split
  · rename_i v hv
    split
    · exact .inr rfl
    · rename_i h
      exact .inl ⟨v, hv, by simpa using h, rfl⟩
  · exact .inr rfl

/-- The mark of a variable's name is that of a declared or of an implicit one. -/
theorem mark_variableName (m : Model) (i : Nat) :
    mark (variableName m i) = some 'u' ∨ mark (variableName m i) = some 'i' := by
  obtain ⟨v, -, -, h⟩ | h := variableName_cases m i <;> rw [h]
  · exact .inl (mark_userName _)
  · exact .inr (mark_implicitName i)

/-- **Distinct places have distinct names**, if no two variables were declared under one name. -/
theorem variableName_injective_of_names {m : Model} (hm : m.vars.Pairwise fun v w => ¬ v.SameName w)
    {i j : Nat} (h : variableName m i = variableName m j) : i = j := by
  obtain ⟨v, hv, hdeclared, hi⟩ | hi := variableName_cases m i
  · obtain ⟨w, hw, hdeclared', hj⟩ | hj := variableName_cases m j
    · have hname : v.name = w.name := userName_injective (hi.symm.trans (h.trans hj))
      obtain ⟨hlt, rfl⟩ := List.getElem?_eq_some_iff.1 hv
      obtain ⟨hlt', rfl⟩ := List.getElem?_eq_some_iff.1 hw
      have hp := List.pairwise_iff_getElem.1 hm
      rcases Nat.lt_trichotomy i j with hij | rfl | hij
      · exact absurd ⟨hdeclared, hdeclared', hname⟩ (hp i j hlt hlt' hij)
      · rfl
      · exact absurd ⟨hdeclared', hdeclared, hname.symm⟩ (hp j i hlt' hlt hij)
    · exact absurd (hi.symm.trans (h.trans hj)) (userName_ne_implicit _ _)
  · obtain ⟨w, -, -, hj⟩ | hj := variableName_cases m j
    · exact absurd (hj.symm.trans (h.symm.trans hi)) (userName_ne_implicit _ _)
    · exact implicitName_injective (hi.symm.trans (h.trans hj))

/-- **Distinct variables of a well-formed program have distinct names.** -/
theorem variableName_injective {m : Model} {limits : Limits} (hm : m.WellFormed limits) {i j : Nat}
    (h : variableName m i = variableName m j) : i = j :=
  variableName_injective_of_names hm.names h

end ShaderAssembly.Glsl
