import Mathlib.Data.List.DropRight
import ShaderAssembly.Proofs.Generation.Name
import ShaderAssembly.Proofs.Generation.Numeral
/-!
# What tokens declare and use

* `declaredNames`: the names that tokens declare, in order;
* `TokenFine`: what has to be declared is being declared or was in an earlier statement, and constant
  places lie inside their array;
* `Fine`: so is everything in a list of tokens;
* **`Expr.isFine`**, **`Line.fine`**: expressions and lines in scope are fine where the scope holds;
* **`Line.declaredNames_tokens`**: lines declare their names.
-/

namespace ShaderAssembly.Glsl

/-! ## Declared names -/

/-- Whether a token starts like a name. -/
def startsName (token : String) : Bool :=
  match token.toList with
  | [] => false
  | c :: _ => c.isAlpha || c == '_'

/-- The names that tokens declare: those behind a type. -/
def declaredNames : List String → List String
  | t :: n :: ts =>
    (if typeNames.contains t && startsName n then [n] else []) ++ declaredNames (n :: ts)
  | _ => []

theorem declaredNames_cons {t : String} (h : typeNames.contains t = false) (ts : List String) :
    declaredNames (t :: ts) = declaredNames ts := by
  cases ts with
  | nil => rfl
  | cons n ts => simp only [declaredNames, h, Bool.false_and, Bool.false_eq_true, if_false,
      List.nil_append]

theorem declaredNames_type {t n : String} (ht : typeNames.contains t = true)
    (hn : startsName n = true) (ts : List String) :
    declaredNames (t :: n :: ts) = n :: declaredNames (n :: ts) := by
  simp only [declaredNames, ht, hn, Bool.and_self, if_true, List.singleton_append]

theorem declaredNames_sign {t n : String} (hn : startsName n = false) (ts : List String) :
    declaredNames (t :: n :: ts) = declaredNames (n :: ts) := by
  simp only [declaredNames, hn, Bool.and_false, Bool.false_eq_true, if_false, List.nil_append]

theorem declaredNames_append_of_plain {ts : List String}
    (h : ∀ t ∈ ts, typeNames.contains t = false) (us : List String) :
    declaredNames (ts ++ us) = declaredNames us := by
  induction ts with
  | nil => rfl
  | cons t ts ih =>
    rw [List.cons_append, declaredNames_cons (h t List.mem_cons_self),
      ih fun x hx => h x (List.mem_cons_of_mem _ hx)]

theorem declaredNames_subset (ts us : List String) : declaredNames ts ⊆ declaredNames (ts ++ us) := by
  fun_induction declaredNames ts with
  | case1 t n ts ih =>
    intro x hx
    rcases List.mem_append.1 hx with hx | hx
    · exact List.mem_append.2 (.inl hx)
    · exact List.mem_append.2 (.inr (ih hx))
  | case2 => exact List.nil_subset _

theorem mem_declaredNames {t n : String} (ht : typeNames.contains t = true)
    (hn : startsName n = true) (before : List String) :
    n ∈ declaredNames (before ++ [t] ++ [n]) := by
  induction before with
  | nil =>
    rw [List.nil_append, List.singleton_append, declaredNames_type ht hn]
    exact List.mem_cons_self
  | cons b before ih =>
    cases before with
    | nil =>
      rw [List.cons_append, List.cons_append, List.nil_append]
      exact List.mem_append.2 (.inr ih)
    | cons c before => exact List.mem_append.2 (.inr ih)

theorem startsName_of_isGenerated {name : String} (h : isGenerated name = true) :
    startsName name = true := by
  obtain ⟨rest, hrest⟩ := List.isPrefixOf_iff_prefix.1 h
  rw [startsName, ← hrest]
  rfl

theorem ne_bracket_of_startsName {name : String} (h : startsName name = true) : name ≠ "[" := by
  rintro rfl
  exact absurd h (by decide)

/-! ## Tokens in their place -/

/-- Whether a statement or a block starts or ends with a token. -/
def isBoundary (token : String) : Bool := [";", "\x7b", "\x7d"].contains token

/-- The tokens of the statements that have ended. -/
def ended (ts : List String) : List String := ts.rdropWhile (!isBoundary ·)

theorem ended_concat {t : String} (h : isBoundary t = true) (ts : List String) :
    ended (ts ++ [t]) = ts ++ [t] := by
  rw [ended, List.rdropWhile_concat, h]
  rfl

theorem ended_prefix_append (before more : List String) : ended before <+: ended (before ++ more) := by
  induction more using List.reverseRecOn with
  | nil =>
    have hnil : ended (before ++ []) = ended before := congrArg ended (List.append_nil before)
    exact hnil ▸ List.prefix_refl _
  | append_singleton more t ih =>
    rw [← List.append_assoc]
    cases h : isBoundary t with
    | false =>
      rw [ended, ended, List.rdropWhile_concat_pos _ _ _ (by rw [h]; rfl)]
      exact ih
    | true =>
      rw [ended_concat h]
      refine (List.rdropWhile_prefix _ _).trans ?_
      exact (List.prefix_append _ _).trans (List.prefix_append _ _)

/-- A token that is being declared stands behind a type. -/
def isDeclared (before : List String) (t : String) : Prop :=
  startsName t = true ∧ ∃ type, before.getLast? = some type ∧ typeNames.contains type = true

/-- A token that has to be declared is being declared or was in an earlier statement, and where a
constant place of it follows, it is being declared or an array with such a place. -/
def TokenFine (before : List String) (t : String) (behind : List String) : Prop :=
  (needsDeclaration t = true → isDeclared before t ∨ t ∈ declaredNames (ended before)) ∧
    (isGenerated t = true → ∀ place rest, behind = "[" :: place :: rest → startsNumber place = true →
      isDeclared before t ∨ ∃ k size : Nat, place = toString k ∧ rest.head? = some "]" ∧
        ["vec4", t, "[", toString size, "]"] <:+: before ∧ k < size)

/-- Every token behind some others is fine in its place. -/
def Fine (before : List String) : List String → Prop
  | [] => True
  | t :: ts => TokenFine before t ts ∧ Fine (before ++ [t]) ts

theorem Fine.split {before ts : List String} (h : Fine before ts) {as bs : List String} {t : String}
    (hts : ts = as ++ t :: bs) : TokenFine (before ++ as) t bs := by
  induction as generalizing before ts with
  | nil =>
    subst hts
    rw [List.append_nil]
    exact h.1
  | cons a as ih =>
    subst hts
    have ht := ih h.2 rfl
    rwa [List.append_assoc, List.singleton_append] at ht

theorem tokenFine_of_plain {t : String} (h : needsDeclaration t = false) (before behind : List String) :
    TokenFine before t behind := by
  refine ⟨fun hd => ?_, fun hg => ?_⟩
  · rw [h] at hd
    cases hd
  · simp [needsDeclaration, hg] at h

theorem fine_of_plain {ts : List String} (h : ∀ t ∈ ts, needsDeclaration t = false)
    {before us : List String} (hus : Fine (before ++ ts) us) : Fine before (ts ++ us) := by
  induction ts generalizing before with
  | nil => rwa [List.append_nil] at hus
  | cons t ts ih =>
    refine ⟨tokenFine_of_plain (h t List.mem_cons_self) _ _, ?_⟩
    refine ih (fun x hx => h x (List.mem_cons_of_mem _ hx)) ?_
    rwa [List.append_assoc, List.singleton_append]

theorem TokenFine.mem {before behind : List String} {t : String} (h : TokenFine before t behind)
    (hd : needsDeclaration t = true) : t ∈ declaredNames (before ++ t :: behind) := by
  rcases h.1 hd with ⟨hname, type, hlast, htype⟩ | hended
  · obtain ⟨more, rfl⟩ := List.getLast?_eq_some_iff.1 hlast
    have hmem := declaredNames_subset _ behind (mem_declaredNames htype hname more)
    simpa using hmem
  · obtain ⟨rest, hrest⟩ := List.rdropWhile_prefix (!isBoundary ·) before
    have hmem := declaredNames_subset _ (rest ++ t :: behind) hended
    rwa [ended, ← List.append_assoc, hrest] at hmem

/-- The scope behind some tokens. -/
def scopeAt (before : List String) : Scope where
  names n := n ∈ declaredNames (ended before)
  arrays n size := ["vec4", n, "[", toString size, "]"] <:+: before

theorem scopeAt_le (before more : List String) : (scopeAt before).Le (scopeAt (before ++ more)) where
  names _ h := by
    obtain ⟨rest, hrest⟩ := ended_prefix_append before more
    rw [scopeAt, ← hrest]
    exact declaredNames_subset _ _ h
  arrays _ _ h := List.IsInfix.trans h (List.prefix_append _ _).isInfix

/-! ## Expressions -/

theorem needsDeclaration_of_isBuiltIn {name : String} (h : isBuiltIn name = true) :
    needsDeclaration name = false := by
  simp only [isBuiltIn, Bool.and_eq_true, Bool.not_eq_true'] at h
  exact h.2

theorem typeNames_of_isBuiltIn {name : String} (h : isBuiltIn name = true) :
    typeNames.contains name = false := by
  simp only [isBuiltIn, Bool.and_eq_true, Bool.not_eq_true'] at h
  exact h.1.2

theorem needsDeclaration_toString (n : Nat) : needsDeclaration (toString n) = false := by
  have hne : toString n ≠ "ARBAddress" := fun h => by
    have hmem : 'A' ∈ (toString n).toList := by
      rw [h]
      decide
    have hdigit : 'A' ∈ Nat.toDigits 10 n := by simpa using hmem
    exact absurd (Nat.isDigit_of_mem_toDigits (by decide) (by decide) hdigit) (by decide)
  rw [needsDeclaration, isGenerated_toString, beq_eq_false_iff_ne.2 hne]
  rfl

/-- A name or a function in scope, where no place follows it. -/
theorem tokenFine_of_has {before behind : List String} {t : String} (h : (scopeAt before).Has t)
    (hne : behind.head? ≠ some "[") : TokenFine before t behind := by
  refine ⟨fun hd => .inr (h.2 hd), fun _ place rest hplace => ?_⟩
  rw [hplace] at hne
  exact absurd rfl hne

theorem Expr.Scoped.behind {e : Expr} {before : List String} (h : e.Scoped (scopeAt before))
    (more : List String) : e.Scoped (scopeAt (before ++ more)) := h.mono (scopeAt_le before more)

theorem fine_sign {t : String} (h : needsDeclaration t = false) {before us : List String}
    (hus : Fine (before ++ [t]) us) : Fine before (t :: us) := ⟨tokenFine_of_plain h _ _, hus⟩

/-- An expression is fine wherever it is in scope, if a place follows it only where it is an element
itself. -/
def Expr.IsFine (e : Expr) : Prop :=
  ∀ before us, e.Scoped (scopeAt before) → (us.head? ≠ some "[" ∨ ∃ b i, e = .element b i) →
    Fine (before ++ e.tokens) us → Fine before (e.tokens ++ us)

theorem listTokens_cons (e e' : Expr) (items : List Expr) :
    listTokens (e :: e' :: items) = e.tokens ++ "," :: listTokens (e' :: items) := by
  simp [listTokens]

theorem listTokens_fine {items : List Expr} (h : ∀ e ∈ items, e.IsFine) {before us : List String}
    (hs : ∀ e ∈ items, e.Scoped (scopeAt before)) (hbehind : us.head? ≠ some "[")
    (hus : Fine (before ++ listTokens items) us) : Fine before (listTokens items ++ us) := by
  induction items generalizing before with
  | nil => simpa [listTokens] using hus
  | cons e items ih =>
    have he := h e List.mem_cons_self
    cases items with
    | nil =>
      have hone : listTokens [e] = e.tokens := by simp [listTokens]
      rw [hone] at hus ⊢
      exact he _ _ (hs e List.mem_cons_self) (.inl hbehind) hus
    | cons e' items =>
      rw [listTokens_cons] at hus ⊢
      rw [List.append_assoc, List.cons_append]
      refine he _ _ (hs e List.mem_cons_self) (.inl (by simp)) (fine_sign (by decide) ?_)
      refine ih (fun x hx => h x (List.mem_cons_of_mem _ hx)) (fun x hx => ?_) ?_
      · exact ((hs x (List.mem_cons_of_mem _ hx)).behind _).behind _
      · simpa using hus

theorem Expr.isFine_of_call {e : Expr} {f : String} {items : List Expr}
    (hcall : e.call? = some (f, items)) (h : ∀ x ∈ items, x.IsFine) : e.IsFine := by
  intro before us hscoped _ hus
  obtain ⟨hf, hitems⟩ := scoped_of_call hcall hscoped
  rw [tokens_of_call hcall] at hus ⊢
  simp only [List.cons_append, List.append_assoc, List.nil_append]
  refine ⟨tokenFine_of_has hf (by simp), fine_sign (by decide) ?_⟩
  refine listTokens_fine h (fun x hx => ((hitems x hx).behind _).behind _) (by simp) ?_
  refine fine_sign (by decide) ?_
  simpa using hus

/-- A number that tokens before a closing bracket start with is the first of them. -/
theorem head_of_append_eq {ts us rest : List String} {place : String}
    (h : ts ++ "]" :: us = place :: rest) (hplace : startsNumber place = true) :
    ts.head? = some place := by
  cases ts with
  | nil =>
    rw [← (List.cons.inj h).1] at hplace
    cases hplace
  | cons t ts => rw [List.head?_cons, (List.cons.inj h).1]

/-- **Every expression is fine wherever it is in scope.** -/
theorem Expr.isFine (e : Expr) : e.IsFine := by
  induction e with
  | number v =>
    exact fun before us h _ hus => fine_of_plain (fun t ht => (plain_of_mem_number h ht).2) hus
  | whole n =>
    refine fun before us _ _ hus => fine_of_plain (fun t ht => ?_) hus
    rw [List.mem_singleton.1 ht]
    exact needsDeclaration_toString n
  | name n =>
    refine fun before us h hbehind hus => ⟨tokenFine_of_has h.1 (hbehind.resolve_right ?_), hus⟩
    rintro ⟨b, i, hbi⟩
    cases hbi
  | field e selector ih =>
    intro before us h _ hus
    have hsel := needsDeclaration_of_isBuiltIn h.2
    simp only [tokens, List.append_assoc, List.cons_append, List.nil_append] at hus ⊢
    refine ih _ _ h.1 (.inl (by simp)) (fine_sign (by decide) (fine_sign hsel ?_))
    simpa using hus
  | element e i ihe ihi =>
    intro before us h _ hus
    simp only [tokens, List.append_assoc, List.cons_append, List.nil_append] at hus ⊢
    have inner (pre : List String) (hpre : pre = before ++ e.tokens) :
        Fine pre ("[" :: (i.tokens ++ "]" :: us)) := by
      subst hpre
      refine fine_sign (by decide) (ihi _ _ ((h.2.1.behind _).behind _) (.inl (by simp)) ?_)
      refine fine_sign (by decide) ?_
      simpa using hus
    cases e with
    | name n =>
      refine ⟨⟨fun hd => .inr (h.1.1.2 hd), fun hg place rest hplace hnumber => ?_⟩, inner _ rfl⟩
      obtain ⟨-, hplace⟩ := List.cons.inj hplace
      obtain ⟨k, rfl, hk⟩ := h.2.2 place (head_of_append_eq hplace hnumber) hnumber
      obtain ⟨size, hsize, hlt⟩ := hk hg
      obtain ⟨hk, hrest⟩ := List.cons.inj hplace
      exact .inr ⟨k, size, hk.symm, by rw [← hrest]; rfl, hsize, hlt⟩
    | element b j => exact ihe _ _ h.1 (.inr ⟨b, j, rfl⟩) (inner _ rfl)
    | number | whole | field | negative | group | binary | choose | call0 | call1 | call2 | call3
    | call4 => exact h.2.2.elim
  | negative e ih =>
    intro before us h hbehind hus
    refine fine_sign (by decide) (ih _ _ (Scoped.behind h _) (.inl (hbehind.resolve_right ?_)) ?_)
    · rintro ⟨b, i, hbi⟩
      cases hbi
    · simpa [tokens] using hus
  | group e ih =>
    intro before us h _ hus
    simp only [tokens, List.append_assoc, List.cons_append, List.nil_append] at hus ⊢
    refine fine_sign (by decide) (ih _ _ (Scoped.behind h _) (.inl (by simp)) ?_)
    refine fine_sign (by decide) ?_
    simpa using hus
  | binary op a b iha ihb =>
    intro before us h hbehind hus
    have hop : needsDeclaration op.text = false ∧ op.text ≠ "[" := by cases op <;> decide
    simp only [tokens, List.append_assoc, List.cons_append, List.nil_append] at hus ⊢
    refine iha _ _ h.1 (.inl (by simpa using hop.2)) (fine_sign hop.1 ?_)
    refine ihb _ _ ((h.2.behind _).behind _) (.inl (hbehind.resolve_right ?_)) ?_
    · rintro ⟨b, i, hbi⟩
      cases hbi
    · simpa using hus
  | choose c a b ihc iha ihb =>
    intro before us h hbehind hus
    simp only [tokens, List.append_assoc, List.cons_append, List.nil_append] at hus ⊢
    refine ihc _ _ h.1 (.inl (by simp)) (fine_sign (by decide) ?_)
    refine iha _ _ ((h.2.1.behind _).behind _) (.inl (by simp)) (fine_sign (by decide) ?_)
    refine ihb _ _ ((((h.2.2.behind _).behind _).behind _).behind _)
      (.inl (hbehind.resolve_right ?_)) ?_
    · rintro ⟨b, i, hbi⟩
      cases hbi
    · simpa using hus
  | call0 f => exact isFine_of_call rfl (List.forall_mem_nil _)
  | call1 f a iha => exact isFine_of_call rfl (by simpa using iha)
  | call2 f a b iha ihb => exact isFine_of_call rfl (by simpa using ⟨iha, ihb⟩)
  | call3 f a b c iha ihb ihc => exact isFine_of_call rfl (by simpa using ⟨iha, ihb, ihc⟩)
  | call4 f a b c d iha ihb ihc ihd =>
    exact isFine_of_call rfl (by simpa using ⟨iha, ihb, ihc, ihd⟩)

/-! ## Lines -/

theorem Line.Scoped.behind {l : Line} {before : List String} (h : l.Scoped (scopeAt before))
    (more : List String) : l.Scoped (scopeAt (before ++ more)) := h.mono (scopeAt_le before more)

theorem tokenFine_declared {before behind : List String} {type name : String}
    (ht : typeNames.contains type = true) (hn : startsName name = true) :
    TokenFine (before ++ [type]) name behind := by
  have h : isDeclared (before ++ [type]) name := ⟨hn, type, List.getLast?_concat, ht⟩
  exact ⟨fun _ => .inl h, fun _ _ _ _ _ => .inl h⟩

/-- **Every line is fine wherever it is in scope.** -/
theorem Line.fine {l : Line} {before us : List String} (h : l.Scoped (scopeAt before))
    (hus : Fine (before ++ l.tokens) us) : Fine before (l.tokens ++ us) := by
  cases l with
  | version | rectangleExtension | openMain | closeMain =>
    exact fine_of_plain (by decide) hus
  | addressType =>
    refine fine_sign (by decide) ⟨tokenFine_declared (by decide) (by decide), ?_⟩
    change Fine _ (["\x7b", "int", "x", ";", "\x7d", ";"] ++ us)
    refine fine_of_plain (by decide) ?_
    simpa [tokens] using hus
  | bank name size =>
    have hname := startsName_of_isGenerated h.2
    refine fine_sign (by decide) (fine_sign (by decide) ⟨?_, ?_⟩)
    · exact tokenFine_declared (by decide) hname
    · change Fine _ (["[", toString size, "]", ";"] ++ us)
      refine fine_of_plain ?_ (by simpa [tokens] using hus)
      simp only [List.mem_cons, List.not_mem_nil, or_false]
      rintro t (rfl | rfl | rfl | rfl)
      · decide
      · exact needsDeclaration_toString size
      · decide
      · decide
  | sampler type name =>
    have hname := startsName_of_isGenerated h.2.2
    refine fine_sign (by decide) ⟨tokenFine_of_has (h.1.1.mono (scopeAt_le _ _)) ?_, ?_, ?_⟩
    · simpa using ne_bracket_of_startsName hname
    · exact tokenFine_declared h.1.2 hname
    · exact fine_sign (by decide) (by simpa [tokens] using hus)
  | declare type name value =>
    have hname := startsName_of_isGenerated h.2.1.2
    simp only [tokens, List.append_assoc, List.cons_append, List.nil_append] at hus ⊢
    refine ⟨tokenFine_of_has h.1.1 ?_, tokenFine_declared h.1.2 hname, ?_⟩
    · simpa using ne_bracket_of_startsName hname
    refine fine_sign (by decide) (value.isFine _ _ ?_ (.inl (by simp)) (fine_sign (by decide) ?_))
    · exact ((h.2.2.behind _).behind _).behind _
    · simpa using hus
  | declareArray name items =>
    have hname := startsName_of_isGenerated h.1.2
    have hsize := needsDeclaration_toString items.length
    simp only [tokens, List.append_assoc, List.cons_append, List.nil_append] at hus ⊢
    refine fine_sign (by decide) ⟨tokenFine_declared (by decide) hname, ?_⟩
    refine fine_sign (by decide) (fine_sign hsize (fine_sign (by decide) ?_))
    refine fine_sign (by decide) (fine_sign (by decide) (fine_sign (by decide) ?_))
    refine fine_sign hsize (fine_sign (by decide) (fine_sign (by decide) ?_))
    refine listTokens_fine (fun e _ => e.isFine) (fun e he => ?_) (by simp) ?_
    · have hmono := Expr.Scoped.behind (h.2 e he) ["vec4", name, "[", toString items.length, "]", "=",
        "vec4", "[", toString items.length, "]", "("]
      simpa using hmono
    · change Fine _ ([")", ";"] ++ us)
      exact fine_of_plain (by decide) (by simpa using hus)
  | assign target value =>
    simp only [tokens, List.append_assoc, List.cons_append, List.nil_append] at hus ⊢
    refine target.isFine _ _ h.1 (.inl (by simp)) (fine_sign (by decide) ?_)
    refine value.isFine _ _ ((h.2.behind _).behind _) (.inl (by simp)) (fine_sign (by decide) ?_)
    simpa using hus
  | discardIf condition =>
    simp only [tokens, List.append_assoc, List.cons_append, List.nil_append] at hus ⊢
    refine fine_sign (by decide) (fine_sign (by decide) ?_)
    refine condition.isFine _ _ ((Expr.Scoped.behind h _).behind _) (.inl (by simp)) ?_
    change Fine _ ([")", "discard", ";"] ++ us)
    refine fine_of_plain (by decide) ?_
    simpa using hus

/-! ## Declarations of expressions and lines -/

theorem typeNames_toString (n : Nat) : typeNames.contains (toString n) = false := by
  have hne : ∀ t ∈ typeNames, t.toList.all Char.isDigit = false := by decide
  refine Bool.eq_false_iff.2 fun hc => ?_
  have hdigits : (toString n).toList.all Char.isDigit = true := by
    rw [List.all_eq_true]
    intro c hc
    exact Nat.isDigit_of_mem_toDigits (b := 10) (n := n) (by decide) (by decide) (by simpa using hc)
  rw [hne _ (List.contains_iff_mem.1 hc)] at hdigits
  cases hdigits

theorem declaredNames_list {items : List Expr} (h : ∀ e ∈ items, ∀ us,
    declaredNames (e.tokens ++ us) = declaredNames us) (us : List String) :
    declaredNames (listTokens items ++ us) = declaredNames us := by
  induction items with
  | nil => rfl
  | cons e items ih =>
    have he := h e List.mem_cons_self
    cases items with
    | nil =>
      have hone : listTokens [e] = e.tokens := by simp [listTokens]
      rw [hone, he]
    | cons e' items =>
      rw [listTokens_cons, List.append_assoc, List.cons_append, he, declaredNames_cons (by decide),
        ih fun x hx => h x (List.mem_cons_of_mem _ hx)]

theorem Expr.declaredNames_of_call {e : Expr} {f : String} {items : List Expr}
    (hcall : e.call? = some (f, items))
    (h : ∀ x ∈ items, ∀ us, declaredNames (x.tokens ++ us) = declaredNames us) (us : List String) :
    declaredNames (e.tokens ++ us) = declaredNames us := by
  rw [tokens_of_call hcall, List.cons_append, List.cons_append, List.append_assoc,
    declaredNames_sign (by decide), declaredNames_cons (by decide), declaredNames_list h]
  exact declaredNames_cons (by decide) us

theorem Expr.declaredNames_tokens {s : Scope} {e : Expr} (h : e.Scoped s) (us : List String) :
    declaredNames (e.tokens ++ us) = declaredNames us := by
  have sign {t : String} (ht : typeNames.contains t = false) (ts : List String) :
      declaredNames (t :: ts) = declaredNames ts := declaredNames_cons ht ts
  induction e generalizing us with
  | number v => exact declaredNames_append_of_plain (fun t ht => (plain_of_mem_number h ht).1) us
  | whole n => exact declaredNames_cons (typeNames_toString n) us
  | name n => exact declaredNames_cons h.2 us
  | field e selector ih =>
    simp only [tokens, List.append_assoc, List.cons_append, List.nil_append]
    rw [ih h.1, sign (by decide), sign (typeNames_of_isBuiltIn h.2)]
  | element e i ihe ihi =>
    simp only [tokens, List.append_assoc, List.cons_append, List.nil_append]
    rw [ihe h.1, sign (by decide), ihi h.2.1, sign (by decide)]
  | negative e ih =>
    simp only [tokens, List.cons_append, List.nil_append]
    rw [sign (by decide), ih h]
  | group e ih =>
    simp only [tokens, List.append_assoc, List.cons_append, List.nil_append]
    rw [sign (by decide), ih h, sign (by decide)]
  | binary op a b iha ihb =>
    have hop : typeNames.contains op.text = false := by cases op <;> decide
    simp only [tokens, List.append_assoc, List.cons_append, List.nil_append]
    rw [iha h.1, sign hop, ihb h.2]
  | choose c a b ihc iha ihb =>
    simp only [tokens, List.append_assoc, List.cons_append, List.nil_append]
    rw [ihc h.1, sign (by decide), iha h.2.1, sign (by decide), ihb h.2.2]
  | call0 f => exact declaredNames_of_call rfl (List.forall_mem_nil _) us
  | call1 f a iha => exact declaredNames_of_call rfl (by simpa using iha h.2) us
  | call2 f a b iha ihb => exact declaredNames_of_call rfl (by simpa using ⟨iha h.2.1, ihb h.2.2⟩) us
  | call3 f a b c iha ihb ihc =>
    exact declaredNames_of_call rfl (by simpa using ⟨iha h.2.1, ihb h.2.2.1, ihc h.2.2.2⟩) us
  | call4 f a b c d iha ihb ihc ihd =>
    exact declaredNames_of_call rfl
      (by simpa using ⟨iha h.2.1, ihb h.2.2.1, ihc h.2.2.2.1, ihd h.2.2.2.2⟩) us

theorem Line.declaredNames_tokens {s : Scope} {l : Line} (h : l.Scoped s) (us : List String) :
    declaredNames (l.tokens ++ us) = l.names ++ declaredNames us := by
  have generated {n : String} (hn : isGeneratedName n) (ts : List String) :
      declaredNames (n :: ts) = declaredNames ts := declaredNames_cons (typeNames_of_isGenerated hn.2) ts
  have sign {t : String} (ht : typeNames.contains t = false) (ts : List String) :
      declaredNames (t :: ts) = declaredNames ts := declaredNames_cons ht ts
  cases l with
  | version | rectangleExtension | closeMain =>
    exact declaredNames_append_of_plain (by decide) us
  | addressType =>
    simp only [tokens, names, List.cons_append, List.nil_append]
    rw [declaredNames_type (by decide) (by decide), declaredNames_sign (by decide), sign (by decide),
      declaredNames_type (by decide) (by decide), sign (by decide), sign (by decide),
      sign (by decide), sign (by decide)]
  | openMain =>
    simp only [tokens, names, List.cons_append, List.nil_append]
    rw [declaredNames_type (by decide) (by decide), sign (by decide), sign (by decide),
      sign (by decide), sign (by decide)]
  | bank name size =>
    simp only [tokens, names, List.cons_append, List.nil_append]
    rw [sign (by decide), declaredNames_type (by decide) (startsName_of_isGenerated h.2),
      generated h, sign (by decide), sign (typeNames_toString size), sign (by decide),
      sign (by decide)]
  | sampler type name =>
    simp only [tokens, names, List.cons_append, List.nil_append]
    rw [sign (by decide), declaredNames_type h.1.2 (startsName_of_isGenerated h.2.2),
      generated h.2, sign (by decide)]
  | declare type name value =>
    simp only [tokens, names, List.append_assoc, List.cons_append, List.nil_append]
    rw [declaredNames_type h.1.2 (startsName_of_isGenerated h.2.1.2), generated h.2.1,
      sign (by decide), Expr.declaredNames_tokens h.2.2, sign (by decide)]
  | declareArray name items =>
    simp only [tokens, names, List.append_assoc, List.cons_append, List.nil_append]
    rw [declaredNames_type (by decide) (startsName_of_isGenerated h.1.2), generated h.1,
      sign (by decide), sign (typeNames_toString _), sign (by decide), sign (by decide),
      declaredNames_sign (by decide), sign (by decide), sign (typeNames_toString _),
      sign (by decide), sign (by decide),
      declaredNames_list fun e he us => Expr.declaredNames_tokens (h.2 e he) us,
      sign (by decide), sign (by decide)]
  | assign target value =>
    simp only [tokens, names, List.append_assoc, List.cons_append, List.nil_append]
    rw [Expr.declaredNames_tokens h.1, sign (by decide), Expr.declaredNames_tokens h.2,
      sign (by decide)]
  | discardIf condition =>
    simp only [tokens, names, List.append_assoc, List.cons_append, List.nil_append]
    rw [sign (by decide), sign (by decide), Expr.declaredNames_tokens h, sign (by decide),
      sign (by decide), sign (by decide)]

end ShaderAssembly.Glsl
