import ShaderAssembly.Proofs.Generation.Token
/-!
# Scopes

* `Scope`: the names that are declared at a place of a shader, and the sizes of arrays among them;
* `Expr.Scoped`, `Line.Scoped`: generated names are in scope, and constant places are inside their
  array;
* **`Line.Scoped.mono`**: scopes may grow.
-/

namespace ShaderAssembly.Glsl

/-! ## Generated names -/

/-- Whether a word is a name that only generated shaders use. -/
def isGenerated (word : String) : Bool := "arb_".toList.isPrefixOf word.toList

/-- Whether a word stands for something that the shader has to declare. -/
def needsDeclaration (word : String) : Bool := isGenerated word || word == "ARBAddress"

/-- The words in front of a name that is declared. -/
def typeNames : List String :=
  ["void", "struct", "int", "vec4", "ARBAddress", "sampler1D", "sampler2D", "sampler3D",
   "samplerCube", "sampler2DRect"]

/-- Whether a word is a name of the language that is no type. -/
def isBuiltIn (word : String) : Bool :=
  isWord word && !typeNames.contains word && !needsDeclaration word

/-! ## Expressions in scope -/

/-- The names declared at a place of a shader, and the arrays among them with their sizes. -/
structure Scope where
  names : String → Prop
  arrays : String → Nat → Prop

/-- A scope that has at least the names and arrays of another one. -/
structure Scope.Le (s s' : Scope) : Prop where
  names : ∀ name, s.names name → s'.names name
  arrays : ∀ name size, s.arrays name size → s'.arrays name size

/-- The scope of everything. -/
def Scope.all : Scope := ⟨fun _ => True, fun _ _ => True⟩

/-- A word that is declared if it has to be. -/
def Scope.Has (s : Scope) (word : String) : Prop :=
  isWord word = true ∧ (needsDeclaration word = true → s.names word)

/-- Whether a token starts like a number. -/
def startsNumber (token : String) : Bool := token.toList.head?.any Char.isDigit

/-- A name that may be indexed with an expression: what starts like a number is a place, and lies
inside the array. -/
def Scope.Admits (s : Scope) (base index : Expr) : Prop :=
  match base with
  | .name n => ∀ token, index.tokens.head? = some token → startsNumber token = true →
      ∃ k, index = .whole k ∧ (isGenerated n = true → ∃ size, s.arrays n size ∧ k < size)
  | .element _ _ => True
  | _ => False

/-- Names that have to be declared are in scope, and constant places lie inside their array. -/
def Expr.Scoped (s : Scope) : Expr → Prop
  | number v => v.isFinite = true
  | whole _ => True
  | name n => s.Has n ∧ typeNames.contains n = false
  | field e selector => e.Scoped s ∧ isBuiltIn selector = true
  | element e i => e.Scoped s ∧ i.Scoped s ∧ s.Admits e i
  | negative e | group e => e.Scoped s
  | binary _ a b => a.Scoped s ∧ b.Scoped s
  | choose condition a b => condition.Scoped s ∧ a.Scoped s ∧ b.Scoped s
  | call0 f => s.Has f
  | call1 f a => s.Has f ∧ a.Scoped s
  | call2 f a b => s.Has f ∧ a.Scoped s ∧ b.Scoped s
  | call3 f a b c => s.Has f ∧ a.Scoped s ∧ b.Scoped s ∧ c.Scoped s
  | call4 f a b c d => s.Has f ∧ a.Scoped s ∧ b.Scoped s ∧ c.Scoped s ∧ d.Scoped s

theorem Expr.scoped_of_call {s : Scope} {e : Expr} {f : String} {items : List Expr}
    (hcall : e.call? = some (f, items)) (h : e.Scoped s) : s.Has f ∧ ∀ x ∈ items, x.Scoped s := by
  cases e <;> cases hcall <;> simpa [Scoped] using h

/-- A type that is declared if it has to be. -/
def Scope.HasType (s : Scope) (type : String) : Prop := s.Has type ∧ typeNames.contains type = true

/-- A word that only generated shaders use. -/
def isGeneratedName (name : String) : Prop := isWord name = true ∧ isGenerated name = true

/-- A line whose names are in scope before it. -/
def Line.Scoped (s : Scope) : Line → Prop
  | version | rectangleExtension | addressType | openMain | closeMain => True
  | bank name _ => isGeneratedName name
  | sampler type name => s.HasType type ∧ isGeneratedName name
  | declare type name value => s.HasType type ∧ isGeneratedName name ∧ value.Scoped s
  | declareArray name items => isGeneratedName name ∧ ∀ e ∈ items, e.Scoped s
  | assign target value => target.Scoped s ∧ value.Scoped s
  | discardIf condition => condition.Scoped s

/-- The names that a line declares. -/
def Line.names : Line → List String
  | addressType => ["ARBAddress", "x"]
  | bank name _ | sampler _ name | declare _ name _ | declareArray name _ => [name]
  | openMain => ["main"]
  | version | rectangleExtension | assign _ _ | discardIf _ | closeMain => []

/-- The arrays that a line declares, with their sizes. -/
def Line.arrays : Line → List (String × Nat)
  | bank name size => [(name, size)]
  | declareArray name items => [(name, items.length)]
  | _ => []

/-! ## Spelling -/

theorem Expr.Scoped.spelled {s : Scope} {e : Expr} (h : e.Scoped s) : e.Spelled := by
  have word {n : String} (hn : isBuiltIn n = true) : isWord n = true := by
    simp only [isBuiltIn, Bool.and_eq_true] at hn
    exact hn.1.1
  induction e with
  | number v => trivial
  | whole n => trivial
  | name n => exact h.1.1
  | field e selector ih => exact ⟨ih h.1, word h.2⟩
  | element e i ihe ihi => exact ⟨ihe h.1, ihi h.2.1⟩
  | negative e ih => exact ih h
  | group e ih => exact ih h
  | binary op a b iha ihb => exact ⟨iha h.1, ihb h.2⟩
  | choose c a b ihc iha ihb => exact ⟨ihc h.1, iha h.2.1, ihb h.2.2⟩
  | call0 f => exact And.left h
  | call1 f a iha => exact ⟨h.1.1, iha h.2⟩
  | call2 f a b iha ihb => exact ⟨h.1.1, iha h.2.1, ihb h.2.2⟩
  | call3 f a b c iha ihb ihc => exact ⟨h.1.1, iha h.2.1, ihb h.2.2.1, ihc h.2.2.2⟩
  | call4 f a b c d iha ihb ihc ihd =>
    exact ⟨h.1.1, iha h.2.1, ihb h.2.2.1, ihc h.2.2.2.1, ihd h.2.2.2.2⟩

theorem Line.Scoped.spelled {s : Scope} {l : Line} (h : l.Scoped s) : l.Spelled := by
  cases l with
  | version | rectangleExtension | addressType | openMain | closeMain => trivial
  | bank name size => exact h.1
  | sampler type name => exact ⟨h.1.1.1, h.2.1⟩
  | declare type name value => exact ⟨h.1.1.1, h.2.1.1, h.2.2.spelled⟩
  | declareArray name items => exact ⟨h.1.1, fun e he => (h.2 e he).spelled⟩
  | assign target value => exact ⟨h.1.spelled, h.2.spelled⟩
  | discardIf condition => exact Expr.Scoped.spelled h

/-! ## Growing scopes -/

theorem Scope.Has.mono {s s' : Scope} (hs : s.Le s') {word : String} (h : s.Has word) :
    s'.Has word := ⟨h.1, fun hd => hs.names _ (h.2 hd)⟩

theorem Scope.Admits.mono {s s' : Scope} (hs : s.Le s') {base index : Expr}
    (h : s.Admits base index) : s'.Admits base index := by
  cases base with
  | name n =>
    intro token htoken hnumber
    obtain ⟨k, hi, hb⟩ := h token htoken hnumber
    refine ⟨k, hi, fun hg => ?_⟩
    obtain ⟨size, ha, hlt⟩ := hb hg
    exact ⟨size, hs.arrays _ _ ha, hlt⟩
  | element e i => trivial
  | number | whole | field | negative | group | binary | choose | call0 | call1 | call2 | call3
  | call4 => exact h.elim

theorem Expr.Scoped.mono {s s' : Scope} (hs : s.Le s') {e : Expr} (h : e.Scoped s) :
    e.Scoped s' := by
  induction e with
  | number v => exact h
  | whole n => trivial
  | name n => exact ⟨h.1.mono hs, h.2⟩
  | field e selector ih => exact ⟨ih h.1, h.2⟩
  | element e i ihe ihi => exact ⟨ihe h.1, ihi h.2.1, h.2.2.mono hs⟩
  | negative e ih => exact ih h
  | group e ih => exact ih h
  | binary op a b iha ihb => exact ⟨iha h.1, ihb h.2⟩
  | choose c a b ihc iha ihb => exact ⟨ihc h.1, iha h.2.1, ihb h.2.2⟩
  | call0 f => exact Scope.Has.mono hs h
  | call1 f a iha => exact ⟨h.1.mono hs, iha h.2⟩
  | call2 f a b iha ihb => exact ⟨h.1.mono hs, iha h.2.1, ihb h.2.2⟩
  | call3 f a b c iha ihb ihc => exact ⟨h.1.mono hs, iha h.2.1, ihb h.2.2.1, ihc h.2.2.2⟩
  | call4 f a b c d iha ihb ihc ihd =>
    exact ⟨h.1.mono hs, iha h.2.1, ihb h.2.2.1, ihc h.2.2.2.1, ihd h.2.2.2.2⟩

/-- **A line in scope stays in scope when the scope grows.** -/
theorem Line.Scoped.mono {s s' : Scope} (hs : s.Le s') {l : Line} (h : l.Scoped s) :
    l.Scoped s' := by
  cases l with
  | version | rectangleExtension | addressType | openMain | closeMain => trivial
  | bank name size => exact h
  | sampler type name => exact ⟨⟨h.1.1.mono hs, h.1.2⟩, h.2⟩
  | declare type name value => exact ⟨⟨h.1.1.mono hs, h.1.2⟩, h.2.1, h.2.2.mono hs⟩
  | declareArray name items => exact ⟨h.1, fun e he => (h.2 e he).mono hs⟩
  | assign target value => exact ⟨h.1.mono hs, h.2.mono hs⟩
  | discardIf condition => exact Expr.Scoped.mono hs h

/-! ## Expressions by their parts -/

section Parts

variable {s : Scope} {a b c d e : Expr} {f n selector : String} {k : Nat}

theorem Scope.has_of_plain (h : (isWord f && !needsDeclaration f) = true) : s.Has f := by
  simp only [Bool.and_eq_true, Bool.not_eq_true'] at h
  exact ⟨h.1, fun hd => absurd hd (by simp [h.2])⟩

theorem Expr.scoped_builtIn (h : isBuiltIn n = true) : (name n).Scoped s := by
  simp only [isBuiltIn, Bool.and_eq_true, Bool.not_eq_true'] at h
  exact ⟨Scope.has_of_plain (by simp [h.1.1, h.2]), h.1.2⟩

theorem Expr.scoped_field (he : e.Scoped s) (h : isBuiltIn selector = true) :
    (field e selector).Scoped s := ⟨he, h⟩

theorem Expr.scoped_call1 (ha : a.Scoped s)
    (hf : (isWord f && !needsDeclaration f) = true) : (call1 f a).Scoped s :=
  ⟨Scope.has_of_plain hf, ha⟩

theorem Expr.scoped_call2 (ha : a.Scoped s) (hb : b.Scoped s)
    (hf : (isWord f && !needsDeclaration f) = true) : (call2 f a b).Scoped s :=
  ⟨Scope.has_of_plain hf, ha, hb⟩

theorem Expr.scoped_call3 (ha : a.Scoped s) (hb : b.Scoped s) (hc : c.Scoped s)
    (hf : (isWord f && !needsDeclaration f) = true) : (call3 f a b c).Scoped s :=
  ⟨Scope.has_of_plain hf, ha, hb, hc⟩

theorem Expr.scoped_vector (ha : a.Scoped s) (hb : b.Scoped s) (hc : c.Scoped s)
    (hd : d.Scoped s) : (vector a b c d).Scoped s :=
  ⟨Scope.has_of_plain (by decide), ha, hb, hc, hd⟩

theorem Expr.scoped_zero : Expr.zero.Scoped s := rfl

theorem Expr.scoped_zeroVector : Expr.zeroVector.Scoped s :=
  Expr.scoped_call1 Expr.scoped_zero (by decide)

theorem Expr.scoped_one : Expr.one.Scoped s := by
  change Single.one.isFinite = true
  decide

theorem Expr.scoped_item_item (he : (item e k).Scoped s) (j : Nat) :
    (item (item e k) j).Scoped s := ⟨he, trivial, trivial⟩

theorem Expr.scoped_item (h : isBuiltIn n = true) (k : Nat) : (item (name n) k).Scoped s := by
  refine ⟨scoped_builtIn h, trivial, fun _ _ _ => ⟨k, rfl, fun hg => ?_⟩⟩
  simp [isBuiltIn, needsDeclaration, hg] at h

end Parts

end ShaderAssembly.Glsl
