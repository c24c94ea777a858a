import ShaderAssembly.Proofs.Locality.Step
import ShaderAssembly.Statement.Binding
import ShaderAssembly.Statement.Selector
/-!
# Scans depend on what they read

Every scan of a statement is local: atoms, constants, selectors and bindings.
-/

namespace ShaderAssembly.Scan

variable (kind : ProgramKind) (limits : Limits)

/-! ## Atoms -/

instance (text : String) : IsLocal (keyword text) := by
  unfold keyword
  infer_instance

instance (wanted : String) : IsLocal (integer wanted) := by
  unfold integer
  refine .andThen fun t => ?_
  split <;> infer_instance

instance : IsLocal index := by
  unfold index
  infer_instance

instance : IsLocal index? := by
  unfold index?
  infer_instance

instance : IsLocal range := by
  unfold range
  refine .andThen fun _ => .andThen fun start => .andThen fun t => ?_
  split <;> infer_instance

instance (limit : Nat) (what : String) (n : Located Nat) : IsLocal (below limit what n) := by
  unfold below
  infer_instance

/-! ## Constants -/

instance (first : Token) : IsLocal (number first) := by
  unfold number
  split <;> infer_instance

instance (first : Token) : IsLocal (signedNumber first) := by
  unfold signedNumber
  split <;> infer_instance

instance (room : Nat) : IsLocal (components room) := by
  induction room with
  | zero =>
    unfold components
    infer_instance
  | succ room ih =>
    unfold components
    refine .andThen fun first => .andThen fun v => .andThen fun t => ?_
    split <;> infer_instance

instance : IsLocal vector := by
  unfold vector
  infer_instance

/-! ## Selectors -/

instance : IsLocal (selector? kind) := by
  unfold selector?
  refine .andThen fun point => ?_
  split
  · infer_instance
  · refine .andThen fun _ => .andThen fun t => ?_
    split <;> infer_instance

instance : IsLocal (swizzle kind) := by
  unfold swizzle
  refine .andThen fun selected => ?_
  split
  · infer_instance
  · split <;> infer_instance

instance : IsLocal (mask kind) := by
  unfold mask
  refine .andThen fun selected => ?_
  split
  · infer_instance
  · split <;> infer_instance

instance (t : Token) : IsLocal (selection kind t) := by
  unfold selection
  split
  · infer_instance
  · infer_instance
  · split
    · split <;> infer_instance
    · infer_instance
  · infer_instance

instance : IsLocal (signedSelection kind) := by
  unfold signedSelection
  refine .andThen fun _ => .andThen fun t => ?_
  split <;> infer_instance

instance : IsLocal (extendedSwizzle kind) := by
  unfold extendedSwizzle
  infer_instance

/-! ## Attributes and results -/

instance : IsLocal colorSet := by
  unfold colorSet
  infer_instance

instance : IsLocal face := by
  unfold face
  infer_instance

instance (name : Token) : IsLocal (texCoord limits name) := by
  unfold texCoord
  infer_instance

instance (root : Token) : IsLocal (inputBinding kind limits root) := by
  unfold inputBinding
  split
  · infer_instance
  refine .andThen fun _ => .andThen fun name => ?_
  split
  case h_6 =>
    refine .andThen fun n => ?_
    split <;> infer_instance
  all_goals infer_instance

instance : IsLocal (outputBinding kind limits) := by
  unfold outputBinding
  refine .andThen fun _ => .andThen fun name => ?_
  split <;> infer_instance

/-! ## State of the fixed pipeline -/

instance : IsLocal materialProperty := by
  unfold materialProperty
  refine .andThen fun name => ?_
  split <;> infer_instance

instance : IsLocal productProperty := by
  unfold productProperty
  refine .andThen fun name => ?_
  split <;> infer_instance

instance : IsLocal lightIndex := by
  unfold lightIndex
  infer_instance

instance : IsLocal lightProperty := by
  unfold lightProperty
  refine .andThen fun name => ?_
  split <;> infer_instance

instance (what : String) : IsLocal (coordUnit limits what) := by
  unfold coordUnit
  refine .andThen fun n => ?_
  split <;> infer_instance

instance : IsLocal (matrixName limits) := by
  unfold matrixName
  refine .andThen fun name => ?_
  split
  case h_1 =>
    refine .andThen fun n => ?_
    split <;> infer_instance
  all_goals infer_instance

instance : IsLocal matrixModifier := by
  unfold matrixModifier
  refine .andThen fun modifier => ?_
  split <;> infer_instance

instance : IsLocal matrixRows := by
  unfold matrixRows
  refine .andThen fun row => ?_
  split <;> infer_instance

instance : IsLocal (matrixBinding limits) := by
  unfold matrixBinding
  infer_instance

instance : IsLocal (stateBinding limits) := by
  unfold stateBinding
  refine .andThen fun _ => .andThen fun group => ?_
  split
  case h_4 | h_6 | h_8 =>
    refine .andThen fun _ => .andThen fun name => ?_
    split <;> infer_instance
  all_goals infer_instance

/-! ## Parameters -/

instance (root : Token) (multiple : Bool) : IsLocal (bankBinding limits root multiple) := by
  unfold bankBinding
  refine .andThen fun _ => .andThen fun bank => ?_
  split <;> infer_instance

instance (first : Token) (multiple : Bool) : IsLocal (paramItem limits first multiple) := by
  unfold paramItem
  split
  case h_6 => split <;> infer_instance
  all_goals infer_instance

instance (first : Token) : IsLocal (singleParam limits first) := by
  unfold singleParam
  refine .andThen fun items => ?_
  split <;> infer_instance

/-! ## Arrays of parameters -/

/-- One initializer of an array and the token behind it. -/
def paramRound : Scan (List ParamBinding × Token) := do
  let items ← paramItem limits (← next) true
  return (items, ← next)

instance : IsLocal (paramRound limits) := by
  unfold paramRound
  infer_instance

theorem paramItemsWithin_succ (bound : Nat) : paramItemsWithin limits (bound + 1) = (do
    let (items, t) ← paramRound limits
    match t.kind with
    | .comma => return items ++ (← paramItemsWithin limits bound)
    | .rightBrace => return items
    | _ => unexpected "',' or '\x7d'" t) := by
  rw [paramRound, bind_assoc]
  refine congrArg _ (funext fun first => ?_)
  rw [bind_assoc]
  rfl

/-- A round that does not meet the end of the text reads a token at least. -/
theorem length_of_paramRound {c d : Cursor} {items : List ParamBinding} {t : Token}
    (e : paramRound limits c = .ok (items, t) d) (h : t.kind ≠ .endOfText) :
    d.rest.length < c.rest.length := by
  obtain ⟨first, c₁, e₁, e⟩ := bind_eq_ok.1 e
  obtain ⟨its, c₂, e₂, e⟩ := bind_eq_ok.1 e
  obtain ⟨t', c₃, e₃, e⟩ := bind_eq_ok.1 e
  cases e
  have h₁ := (IsLocal.suffix e₁).length_le
  have h₂ := (IsLocal.suffix e₂).length_le
  have h₃ := congrArg List.length (rest_of_next e₃ h)
  rw [List.length_cons] at h₃
  omega

/-- The initializers of an array read the same tokens again, if more rounds are allowed than there
are tokens. -/
theorem paramItemsWithin_reads (bound : Nat) {c d : Cursor} {items : List ParamBinding}
    (e : paramItemsWithin limits bound c = .ok items d) : ∃ used, c.rest = used ++ d.rest ∧
      ∀ more, Agree d.rest more → ∀ rounds, used.length < rounds →
        paramItemsWithin limits rounds (c.withRest (used ++ more)) = .ok items (d.withRest more) := by
  induction bound generalizing c d items with
  | zero =>
    obtain ⟨t, c₁, -, e⟩ := bind_eq_ok.1 e
    cases e
  | succ bound ih =>
    rw [paramItemsWithin_succ] at e
    obtain ⟨⟨head, t⟩, c₁, e₁, e₂⟩ := bind_eq_ok.1 e
    obtain ⟨used₁, h₁, again₁⟩ := IsLocal.reads e₁
    cases ht : t.kind with
    | comma =>
      simp only [ht] at e₂
      obtain ⟨tail, c₂, e₂, e₃⟩ := bind_eq_ok.1 e₂
      cases e₃
      obtain ⟨used₂, h₂, again₂⟩ := ih e₂
      have hlt := length_of_paramRound limits e₁ (by rw [ht]; decide)
      refine ⟨used₁ ++ used₂, by rw [h₁, h₂, List.append_assoc], fun more hmore rounds hr => ?_⟩
      obtain ⟨rounds, rfl⟩ := Nat.exists_eq_add_one_of_ne_zero (Nat.ne_zero_of_lt hr)
      have hr' : used₂.length < rounds := by
        rw [h₁] at hlt
        simp only [List.length_append] at hlt hr
        omega
      rw [paramItemsWithin_succ, List.append_assoc]
      refine bind_eq_ok.2 ⟨_, _, again₁ _ (h₂ ▸ hmore.append used₂), ?_⟩
      simp only [ht]
      exact bind_eq_ok.2 ⟨tail, _, again₂ more hmore rounds hr', rfl⟩
    | rightBrace =>
      simp only [ht] at e₂
      cases e₂
      refine ⟨used₁, h₁, fun more hmore rounds hr => ?_⟩
      obtain ⟨rounds, rfl⟩ := Nat.exists_eq_add_one_of_ne_zero (Nat.ne_zero_of_lt hr)
      rw [paramItemsWithin_succ]
      refine bind_eq_ok.2 ⟨_, _, again₁ _ hmore, ?_⟩
      simp only [ht]
      rfl
    | _ =>
      simp only [ht] at e₂
      cases e₂

theorem paramItemsWithin_moves (bound : Nat) {c d : Cursor} {items : List ParamBinding}
    (e : paramItemsWithin limits bound c = .ok items d) : c.LeadsTo d := by
  induction bound generalizing c items with
  | zero =>
    obtain ⟨t, c₁, -, e⟩ := bind_eq_ok.1 e
    cases e
  | succ bound ih =>
    rw [paramItemsWithin_succ] at e
    obtain ⟨⟨head, t⟩, c₁, e₁, e₂⟩ := bind_eq_ok.1 e
    have hmoves := IsLocal.moves e₁
    cases ht : t.kind with
    | comma =>
      simp only [ht] at e₂
      obtain ⟨tail, c₂, e₂, ⟨⟩⟩ := bind_eq_ok.1 e₂
      exact hmoves.trans (ih e₂)
    | rightBrace =>
      simp only [ht] at e₂
      cases e₂
      exact hmoves
    | _ =>
      simp only [ht] at e₂
      cases e₂

instance : IsLocal (paramItems limits) where
  reads {c items d} e := by
    obtain ⟨used, hused, again⟩ := paramItemsWithin_reads limits _ e
    refine ⟨used, hused, fun more hmore => again more hmore _ ?_⟩
    simp only [Cursor.rest_withRest, List.length_append]
    omega
  moves e := paramItemsWithin_moves limits _ e

/-- Rounds beyond the number of tokens change nothing: the initializers of an array end. -/
theorem paramItemsWithin_eq {rounds rounds' : Nat} {c : Cursor} (h : c.rest.length < rounds)
    (h' : c.rest.length < rounds') :
    paramItemsWithin limits rounds c = paramItemsWithin limits rounds' c := by
  induction rounds generalizing c rounds' with
  | zero => omega
  | succ rounds ih =>
    obtain ⟨rounds', rfl⟩ := Nat.exists_eq_add_one_of_ne_zero (Nat.ne_zero_of_lt h')
    rw [paramItemsWithin_succ, paramItemsWithin_succ]
    simp only [Bind.bind, EStateM.bind]
    cases e : paramRound limits c with
    | error f c₁ => rfl
    | ok head c₁ =>
      obtain ⟨head, t⟩ := head
      cases ht : t.kind with
      | comma =>
        have hlt := length_of_paramRound limits e (by rw [ht]; decide)
        have hrest : paramItemsWithin limits rounds c₁ = paramItemsWithin limits rounds' c₁ :=
          ih (by omega) (by omega)
        simp only [ht, EStateM.bind, hrest]
      | _ => simp only [ht]

end ShaderAssembly.Scan
