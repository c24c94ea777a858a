import ShaderAssembly.Proofs.Framing.Step
import ShaderAssembly.Statement.Binding
import ShaderAssembly.Statement.Selector
/-!
# Scans stay inside a statement

No scan passes a semicolon or the root of a binding: atoms, constants, selectors and bindings. The
scans that start from a token which has been read refuse such a token there. A word may be the root
of a binding, so what is read behind a word must refuse it.
-/

namespace ShaderAssembly.Scan

variable (kind : ProgramKind) (limits : Limits)

/-! ## Atoms -/

theorem avoids_expect {bad : Token → Prop} {kind : TokenKind} (h : ∀ t : Token, t.kind = kind → ¬ bad t)
    (wanted : String) : Avoids bad (expect kind wanted) := by
  unfold expect
  refine .next (fun t ht _ _ _ e => ?_) fun t => inferInstance
  rw [if_pos (by simpa using fun hkind => h t hkind ht)] at e
  cases e

theorem avoids_punctuation {kind : TokenKind} (hstop : kind ≠ .semicolon) (hword : kind ≠ .identifier)
    (wanted : String) : Avoids Token.IsForeign (expect kind wanted) := by
  refine avoids_expect (fun t ht hforeign => ?_) wanted
  obtain h | h := hforeign
  · exact hstop (ht.symm.trans h.1)
  · exact hword (ht.symm.trans h.1)

instance (wanted : String) : Avoids Token.IsForeign (expect .comma wanted) :=
  avoids_punctuation (by decide) (by decide) wanted

instance (wanted : String) : Avoids Token.IsForeign (expect .dot wanted) :=
  avoids_punctuation (by decide) (by decide) wanted

instance (wanted : String) : Avoids Token.IsForeign (expect .equals wanted) :=
  avoids_punctuation (by decide) (by decide) wanted

instance (wanted : String) : Avoids Token.IsForeign (expect .leftBracket wanted) :=
  avoids_punctuation (by decide) (by decide) wanted

instance (wanted : String) : Avoids Token.IsForeign (expect .rightBracket wanted) :=
  avoids_punctuation (by decide) (by decide) wanted

instance (wanted : String) : Avoids Token.IsForeign (expect .leftBrace wanted) :=
  avoids_punctuation (by decide) (by decide) wanted

instance (wanted : String) : Avoids Token.IsRoot (expect .semicolon wanted) :=
  avoids_expect (fun _ ht h => by cases ht.symm.trans h.1) wanted

instance (wanted : String) : StaysInside (word wanted) := by
  unfold word
  refine .next (fun t ht _ _ _ e => ?_) fun t => inferInstance
  simp only [ht.1] at e
  cases e

/-- A word before a scan that refuses the root of a binding. -/
theorem avoids_word {α : Type} {wanted : String} {f : Token → Scan α}
    (hroot : ∀ t, t.IsRoot → ∀ c a d, f t c ≠ .ok a d) (hf : ∀ t, Avoids Token.IsForeign (f t)) :
    Avoids Token.IsForeign (word wanted >>= f) where
  reads {c d a} e := by
    obtain ⟨t, c₁, e₁, e₂⟩ := bind_eq_ok.1 e
    obtain ⟨hrest, hword⟩ := rest_of_word e₁
    obtain ⟨used, hused, hnone⟩ := (hf t).reads e₂
    refine ⟨t :: used, ?_, List.forall_mem_cons.2 ⟨fun ht => ?_, hnone⟩⟩
    · change c.rest = _
      rw [hrest]
      exact congrArg _ hused
    obtain h | h := ht
    · cases hword.symm.trans h.1
    · exact hroot t h c₁ a d e₂

instance (text : String) : StaysInside (keyword text) := by
  unfold keyword
  infer_instance

theorem avoids_keyword {text : String} (h : text ∉ bindingRoots) :
    Avoids Token.IsForeign (keyword text) := by
  unfold keyword
  refine avoids_word (fun t ht _ _ _ e => ?_) fun t => inferInstance
  have hne : t.text ≠ text := fun htext => h (htext ▸ ht.2)
  rw [if_pos (by simpa using hne)] at e
  cases e

instance : Avoids Token.IsForeign (keyword "direction") := avoids_keyword (by decide)

instance : Avoids Token.IsForeign (keyword "scenecolor") := avoids_keyword (by decide)

instance : Avoids Token.IsForeign (keyword "plane") := avoids_keyword (by decide)

instance : Avoids Token.IsForeign (keyword "color") := avoids_keyword (by decide)

instance : Avoids Token.IsForeign (keyword "range") := avoids_keyword (by decide)

/-- A suffix is a point and a word. -/
theorem avoids_suffix? {accepted : List String} (h : ∀ root ∈ bindingRoots, root ∉ accepted) :
    Avoids Token.IsForeign (suffix? accepted) where
  reads {c d found} e := by
    rw [suffix?_eq] at e
    cases hsuffix : suffixOf? accepted c.rest with
    | none =>
      rw [hsuffix] at e
      cases e
      exact ⟨[], rfl, List.forall_mem_nil _⟩
    | some text =>
      rw [hsuffix] at e
      cases e
      obtain ⟨point, name, ts, hts⟩ := exists_of_suffixOf? hsuffix
      rw [hts, suffixOf?] at hsuffix
      split at hsuffix
      · rename_i hkinds
        simp only [Bool.and_eq_true, beq_iff_eq, List.contains_iff_mem] at hkinds
        obtain ⟨⟨hpoint, hname⟩, haccepted⟩ := hkinds
        refine ⟨[point, name], by simp [Cursor.advance, hts, Reading.cursor], ?_⟩
        simpa [Token.IsForeign, Token.Terminates, Token.IsRoot, hpoint, hname] using
          fun hroot => h _ hroot haccepted
      · cases hsuffix

instance (wanted : String) : Avoids Token.IsForeign (integer wanted) := by
  unfold integer
  refine .next (fun t ht _ _ _ e => ?_) fun t => ?_
  · obtain h | h := ht.kind_eq <;> simp only [h] at e <;> cases e
  · split <;> infer_instance

instance : Avoids Token.IsForeign index := by
  unfold index
  infer_instance

instance : Avoids Token.IsForeign index? := by
  unfold index?
  infer_instance

instance : Avoids Token.IsForeign range := by
  unfold range
  refine .andThen fun _ => .andThen fun start => .next (fun t ht _ _ _ e => ?_) fun t => ?_
  · obtain h | h := ht.kind_eq <;> simp only [h] at e <;> cases e
  · split <;> infer_instance

instance (limit : Nat) (what : String) (n : Located Nat) : Avoids Token.IsForeign (below limit what n) := by
  unfold below
  infer_instance

/-! ## Constants -/

instance (first : Token) : Avoids Token.IsForeign (number first) := by
  unfold number
  split <;> infer_instance

instance : Declines Token.IsForeign number where
  refused {t} ht _ _ _ e := by
    obtain h | h := ht.kind_eq <;> simp only [number, Token.number?, h] at e <;> cases e

instance (first : Token) : Avoids Token.IsForeign (signedNumber first) := by
  unfold signedNumber
  split <;> infer_instance

instance : Declines Token.IsForeign signedNumber where
  refused {t} ht s a s' e := by
    obtain h | h := ht.kind_eq <;> simp only [signedNumber, h] at e <;>
      exact Declines.refused ht s a s' e

instance (room : Nat) : Avoids Token.IsForeign (components room) := by
  induction room with
  | zero =>
    unfold components
    infer_instance
  | succ room ih =>
    unfold components
    refine .behind fun first => .andThen fun v => .next (fun t ht _ _ _ e => ?_) fun t => ?_
    · obtain h | h := ht.kind_eq <;> simp only [h] at e <;> cases e
    · split <;> infer_instance

instance : Avoids Token.IsForeign vector := by
  unfold vector
  infer_instance

/-! ## Selectors -/

/-- Neither a semicolon nor a root is made of the letters of components. -/
theorem components?_of_isForeign {t : Token} (h : t.IsForeign) :
    Selector.components? kind t.text = none := by
  have htext : t.text ∈ ";" :: bindingRoots :=
    h.elim (fun h => by simp [h.2]) fun h => List.mem_cons_of_mem _ h.2
  revert htext
  generalize t.text = text
  revert text
  cases kind <;> decide

/-- The point that comes next is read before the letters. -/
instance : Avoids Token.IsForeign (selector? kind) where
  reads {c d found} e := by
    unfold selector? at e
    obtain ⟨point, c₁, e₁, e₂⟩ := bind_eq_ok.1 e
    cases e₁
    split at e₂
    · cases e₂
      exact ⟨[], rfl, List.forall_mem_nil _⟩
    · rename_i hpoint
      have hdot : c.upcoming.kind = .dot := by simpa using hpoint
      refine Avoids.of_upcoming (fun _ => ?_) (fun h => ?_) e₂
      · refine .next (fun t ht _ _ _ e => ?_) fun t => ?_
        · rw [components?_of_isForeign kind ht] at e
          cases e
        · split <;> infer_instance
      · obtain h | h := h.kind_eq <;> cases hdot.symm.trans h

instance : Avoids Token.IsForeign (swizzle kind) := by
  unfold swizzle
  refine .andThen fun selected => ?_
  split
  · infer_instance
  · split <;> infer_instance

instance : Avoids Token.IsForeign (mask kind) := by
  unfold mask
  refine .andThen fun selected => ?_
  split
  · infer_instance
  · split <;> infer_instance

instance (t : Token) : Avoids Token.IsForeign (selection kind t) := by
  unfold selection
  split
  · infer_instance
  · infer_instance
  · split
    · split <;> infer_instance
    · infer_instance
  · infer_instance

instance : Declines Token.IsForeign (selection kind) where
  refused {t} ht _ _ _ e := by
    obtain h | h := ht
    · simp only [selection, h.1] at e
      cases e
    · obtain htext | htext | htext | htext | htext := h.text_eq <;>
        simp [selection, h.1, htext] at e <;> cases e

instance : Avoids Token.IsForeign (signedSelection kind) := by
  unfold signedSelection
  refine .andThen fun _ => .next (fun t ht s a s' e => ?_) fun t => ?_
  · obtain h | h := ht.kind_eq <;> simp only [h] at e <;>
      obtain ⟨_, _, e, -⟩ := bind_eq_ok.1 e <;> exact Declines.refused ht _ _ _ e
  · split <;> infer_instance

instance : Avoids Token.IsForeign (extendedSwizzle kind) := by
  unfold extendedSwizzle
  infer_instance

/-! ## Attributes and results -/

instance : Avoids Token.IsForeign colorSet := by
  unfold colorSet
  have : Avoids Token.IsForeign (suffix? ["primary", "secondary"]) := avoids_suffix? (by decide)
  infer_instance

instance : Avoids Token.IsForeign face := by
  unfold face
  have : Avoids Token.IsForeign (suffix? ["front", "back"]) := avoids_suffix? (by decide)
  infer_instance

instance (name : Token) : Avoids Token.IsForeign (texCoord limits name) := by
  unfold texCoord
  infer_instance

instance (root : Token) : Avoids Token.IsForeign (inputBinding kind limits root) := by
  unfold inputBinding
  split
  · infer_instance
  refine .andThen fun _ => avoids_word (fun t ht _ _ _ e => ?_) fun name => ?_
  · cases kind <;> obtain h | h | h | h | h := ht.text_eq <;> simp only [h] at e <;> cases e
  split
  case h_6 =>
    refine .andThen fun n => ?_
    split <;> infer_instance
  all_goals infer_instance

instance : Avoids Token.IsForeign (outputBinding kind limits) := by
  unfold outputBinding
  refine .andThen fun _ => avoids_word (fun t ht _ _ _ e => ?_) fun name => ?_
  · cases kind <;> obtain h | h | h | h | h := ht.text_eq <;> simp only [h] at e <;> cases e
  · split <;> infer_instance

/-! ## State of the fixed pipeline -/

instance : Avoids Token.IsForeign materialProperty := by
  unfold materialProperty
  refine avoids_word (fun t ht _ _ _ e => ?_) fun name => ?_
  · obtain h | h | h | h | h := ht.text_eq <;> simp only [h] at e <;> cases e
  · split <;> infer_instance

instance : Avoids Token.IsForeign productProperty := by
  unfold productProperty
  refine avoids_word (fun t ht _ _ _ e => ?_) fun name => ?_
  · obtain h | h | h | h | h := ht.text_eq <;> simp only [h] at e <;> cases e
  · split <;> infer_instance

instance : Avoids Token.IsForeign lightIndex := by
  unfold lightIndex
  infer_instance

instance : Avoids Token.IsForeign lightProperty := by
  unfold lightProperty
  refine avoids_word (fun t ht _ _ _ e => ?_) fun name => ?_
  · obtain h | h | h | h | h := ht.text_eq <;> simp only [h] at e <;> cases e
  · split <;> infer_instance

instance (what : String) : Avoids Token.IsForeign (coordUnit limits what) := by
  unfold coordUnit
  refine .andThen fun n => ?_
  split <;> infer_instance

instance : Avoids Token.IsForeign (matrixName limits) := by
  unfold matrixName
  refine avoids_word (fun t ht _ _ _ e => ?_) fun name => ?_
  · obtain h | h | h | h | h := ht.text_eq <;> simp only [h] at e <;> cases e
  split
  case h_1 =>
    refine .andThen fun n => ?_
    split <;> infer_instance
  all_goals infer_instance

instance : Avoids Token.IsForeign matrixModifier := by
  unfold matrixModifier
  have : Avoids Token.IsForeign (suffix? ["inverse", "transpose", "invtrans"]) :=
    avoids_suffix? (by decide)
  refine .andThen fun modifier => ?_
  split <;> infer_instance

instance : Avoids Token.IsForeign matrixRows := by
  unfold matrixRows
  have : Avoids Token.IsForeign (suffix? ["row"]) := avoids_suffix? (by decide)
  refine .andThen fun row => ?_
  split <;> infer_instance

instance : Avoids Token.IsForeign (matrixBinding limits) := by
  unfold matrixBinding
  infer_instance

instance : Avoids Token.IsForeign (stateBinding limits) := by
  unfold stateBinding
  refine .andThen fun _ => avoids_word (fun t ht _ _ _ e => ?_) fun group => ?_
  · obtain h | h | h | h | h := ht.text_eq <;> simp only [h] at e <;> cases e
  split
  case h_4 | h_6 | h_8 =>
    refine .andThen fun _ => avoids_word (fun t ht _ _ _ e => ?_) fun name => ?_
    · obtain h | h | h | h | h := ht.text_eq <;> simp only [h] at e <;> cases e
    · split <;> infer_instance
  all_goals infer_instance

/-! ## Parameters -/

instance (root : Token) (multiple : Bool) :
    Avoids Token.IsForeign (bankBinding limits root multiple) := by
  unfold bankBinding
  refine .andThen fun _ => avoids_word (fun t ht _ _ _ e => ?_) fun bank => ?_
  · obtain h | h | h | h | h := ht.text_eq <;> simp only [h] at e <;> cases e
  · split <;> infer_instance

instance (first : Token) (multiple : Bool) :
    Avoids Token.IsForeign (paramItem limits first multiple) := by
  unfold paramItem
  split
  case h_6 => split <;> infer_instance
  all_goals infer_instance

/-- An initializer may start with the root of a binding, but not with a semicolon. -/
instance (multiple : Bool) :
    Declines Token.Terminates fun first => paramItem limits first multiple where
  refused {t} ht _ _ _ e := by
    simp only [paramItem, ht.1] at e
    cases e

instance (first : Token) : Avoids Token.IsForeign (singleParam limits first) := by
  unfold singleParam
  refine .andThen fun items => ?_
  split <;> infer_instance

instance : Declines Token.Terminates (singleParam limits) where
  refused ht _ _ _ e := by
    obtain ⟨_, _, e, -⟩ := bind_eq_ok.1 e
    exact (inferInstance : Declines _ fun first => paramItem limits first false).refused ht _ _ _ e

instance (bound : Nat) : StaysInside (paramItemsWithin limits bound) := by
  induction bound with
  | zero =>
    unfold paramItemsWithin
    infer_instance
  | succ bound ih =>
    unfold paramItemsWithin
    refine .behind fun first => .andThen fun items => .next (fun t ht _ _ _ e => ?_) fun t => ?_
    · simp only [ht.1] at e
      cases e
    · split <;> infer_instance

instance : StaysInside (paramItems limits) := by
  unfold paramItems
  infer_instance

end ShaderAssembly.Scan
