import ShaderAssembly.Proofs.Comparison.Step
import ShaderAssembly.Statement.Declaration
/-!
# Drafts side by side

Drafts that are read from texts that are alike differ in places and in the names of implicit
variables, which are cut out of the text with its blanks.

* `Comparison.SameVariable`, `Comparison.SameInstruction`, `Comparison.SameDraft`;
* `Comparison.Changes`: two changes of drafts with the same outcome;
* `SameDraft.declare`, `SameDraft.nameAlso`, `SameDraft.imply`, `SameDraft.sample`,
  `SameDraft.write`, `SameDraft.push`, `SameDraft.setOption`: every change of drafts that are alike
  leads to drafts that are alike.
-/

namespace ShaderAssembly.Comparison

variable (Γ : Comparison)

/-- Variables that differ in their places only, and in their names if these are not declared. -/
structure SameVariable (v v' : Variable) : Prop where
  kind : v'.kind = v.kind
  implicit : v'.implicit = v.implicit
  name : v.implicit = false ∨ Γ.sameText → v'.name = v.name
  place : Γ.place v.offset v'.offset

/-- Instructions that differ in their places only. -/
def SameInstruction (i i' : Instruction) : Prop :=
  ∃ offset, i' = { i with offset } ∧ Γ.word i.offset offset

/-- Drafts whose variables and instructions are alike, where names stand for declared variables. -/
structure SameDraft (d d' : Draft) : Prop where
  vars : List.Forall₂ Γ.SameVariable d.vars d'.vars
  instructions : List.Forall₂ Γ.SameInstruction d.instructions d'.instructions
  special : d'.special = d.special
  samplers : d'.samplers = d.samplers
  symbols : d'.symbols = d.symbols
  precisionHint : d'.precisionHint = d.precisionHint
  temporaryCount : d'.temporaryCount = d.temporaryCount
  addressCount : d'.addressCount = d.addressCount
  named : ∀ name i, d.symbols.lookup name = some i → ∃ v, d.vars[i]? = some v ∧ v.implicit = false

/-- Changes with the same outcome: drafts that are alike, or, under the same limits, refusals that
are worded alike. -/
def Changes (change change' : Except Cause Draft) : Prop :=
  match change with
  | .ok d => ∃ d', change' = .ok d' ∧ Γ.SameDraft d d'
  | .error cause =>
    Γ.limits = Γ.limits' → ∃ cause', change' = .error cause' ∧ cause.message = cause'.message

variable {Γ} {d d' : Draft}

theorem Changes.of_pure (h : Γ.SameDraft d d') : Γ.Changes (pure d) (pure d') := ⟨d', rfl, h⟩

theorem Changes.of_throw (cause : Cause) : Γ.Changes (throw cause) (throw cause) :=
  fun _ => ⟨cause, rfl, rfl⟩

theorem Changes.bind {check check' : Except Cause Unit} {f f' : Unit → Except Cause Draft}
    (hc : ∀ u, check = .ok u → check' = .ok u)
    (he : ∀ cause, check = .error cause → Γ.limits = Γ.limits' → check' = .error cause)
    (hf : Γ.Changes (f ()) (f' ())) : Γ.Changes (check >>= f) (check' >>= f') := by
  cases h : check with
  | ok u =>
    rw [hc u h]
    exact hf
  | error cause =>
    intro hl
    rw [he cause h hl]
    exact ⟨cause, rfl, rfl⟩

namespace SameDraft

theorem empty : Γ.SameDraft {} {} where
  vars := .nil
  instructions := .nil
  special := rfl
  samplers := rfl
  symbols := rfl
  precisionHint := rfl
  temporaryCount := rfl
  addressCount := rfl
  named _ _ h := nomatch h

/-! ## Looking up -/

theorem var (h : Γ.SameDraft d d') {i : Nat} {v : Variable} (hv : d.vars[i]? = some v) :
    ∃ v', d'.vars[i]? = some v' ∧ Γ.SameVariable v v' := by
  obtain ⟨hi, rfl⟩ := List.getElem?_eq_some_iff.1 hv
  have hi' : i < d'.vars.length := h.vars.length_eq ▸ hi
  exact ⟨d'.vars[i], List.getElem?_eq_getElem hi', h.vars.get hi hi'⟩

theorem lookup? (h : Γ.SameDraft d d') (name : String) : Option.Rel
    (fun r r' => r.1 = r'.1 ∧ d.vars[r.1]? = some r.2 ∧ r.2.implicit = false ∧
      Γ.SameVariable r.2 r'.2) (d.lookup? name) (d'.lookup? name) := by
  unfold Draft.lookup?
  rw [h.symbols]
  cases hi : d.symbols.lookup name with
  | none => exact .none
  | some i =>
    obtain ⟨v, hv, himplicit⟩ := h.named name i hi
    obtain ⟨v', hv', hsame⟩ := h.var hv
    simp only [Option.bind_eq_bind, Option.bind_some, hv, hv']
    exact .some ⟨rfl, hv, himplicit, hsame⟩

theorem implied? (h : Γ.SameDraft d d') (k : VariableKind) : d'.implied? k = d.implied? k := by
  have hvars := h.vars
  unfold Draft.implied?
  generalize d.vars = vs, d'.vars = vs' at hvars
  induction hvars with
  | nil => rfl
  | cons hv _ ih => rw [List.findIdx?_cons, List.findIdx?_cons, ih, hv.kind, hv.implicit]

theorem checkName (h : Γ.SameDraft d d') (name : String) :
    d'.checkName name = d.checkName name := by
  rw [Draft.checkName, Draft.checkName, h.symbols]

/-! ## Names and variables -/

theorem addVariable (h : Γ.SameDraft d d') {v v' : Variable} (hv : Γ.SameVariable v v') :
    Γ.SameDraft { d with vars := d.vars ++ [v] } { d' with vars := d'.vars ++ [v'] } :=
  { h with
    vars := List.rel_append h.vars (.cons hv .nil)
    named := fun name i hi => by
      obtain ⟨w, hw, himplicit⟩ := h.named name i hi
      exact ⟨w, by rw [List.getElem?_append_left (List.getElem?_eq_some_iff.1 hw).1, hw],
        himplicit⟩ }

theorem addName (h : Γ.SameDraft d d') (name : String) {i : Nat} {v : Variable}
    (hv : d.vars[i]? = some v) (himplicit : v.implicit = false) :
    Γ.SameDraft { d with symbols := (name, i) :: d.symbols }
      { d' with symbols := (name, i) :: d'.symbols } :=
  { h with
    symbols := by rw [h.symbols]
    named := fun other j hj => by
      rw [List.lookup_cons] at hj
      split at hj
      · cases hj
        exact ⟨v, hv, himplicit⟩
      · exact h.named other j hj }

/-- Where no check of the second reading is stricter, a count that the first one admits is
admitted. -/
theorem checkCount (h : Γ.SameDraft d d') (k : VariableKind) :
    (∀ u, d.checkCount Γ.limits k = .ok u → d'.checkCount Γ.limits' k = .ok u) ∧
      (Γ.limits = Γ.limits' → d'.checkCount Γ.limits' k = d.checkCount Γ.limits k) := by
  have htemporaries := Γ.le.maxTemporaries
  have haddresses := Γ.le.maxAddressRegisters
  refine ⟨fun u hu => ?_, fun hl => ?_⟩
  · unfold Draft.checkCount at hu ⊢
    rw [h.temporaryCount, h.addressCount]
    split at hu
    · split at hu
      · cases hu
      · rw [if_neg (by omega)]
        rfl
    · split at hu
      · cases hu
      · rw [if_neg (by omega)]
        rfl
    · rfl
  · unfold Draft.checkCount
    rw [h.temporaryCount, h.addressCount, hl]

theorem declare (h : Γ.SameDraft d d') (name : String) (k : VariableKind) {offset offset' : Nat}
    (ho : Γ.place offset offset') :
    Γ.Changes (d.declare Γ.limits name k offset) (d'.declare Γ.limits' name k offset') := by
  have hcount := h.checkCount k
  unfold Draft.declare
  rw [h.checkName]
  refine .bind (fun _ => id) (fun _ e _ => e) ?_
  refine .bind hcount.1 (fun _ e hl => (hcount.2 hl).trans e) (.of_pure ?_)
  rw [← h.vars.length_eq]
  let v : Variable := { name, kind := k, offset }
  have hv : Γ.SameVariable v { name, kind := k, offset := offset' } :=
    ⟨rfl, rfl, fun _ => rfl, ho⟩
  have hlast : (d.vars ++ [v])[d.vars.length]? = some v := by simp
  exact { (h.addVariable hv).addName name hlast rfl with
    temporaryCount := by simp only [h.temporaryCount]
    addressCount := by simp only [h.addressCount] }

theorem nameAlso (h : Γ.SameDraft d d') (name : String) {i : Nat} {v : Variable}
    (hv : d.vars[i]? = some v) (himplicit : v.implicit = false) :
    Γ.Changes (d.nameAlso name i) (d'.nameAlso name i) := by
  unfold Draft.nameAlso
  rw [h.checkName]
  exact .bind (fun _ => id) (fun _ e _ => e) (.of_pure (h.addName name hv himplicit))

theorem imply (h : Γ.SameDraft d d') {text text' : String} (k : VariableKind)
    {offset offset' : Nat} (ht : Γ.sameText → text' = text) (ho : Γ.place offset offset') :
    Γ.SameDraft (d.imply text k offset) (d'.imply text' k offset') :=
  h.addVariable ⟨rfl, rfl, fun hs => ht (hs.resolve_left (nomatch ·)), ho⟩

/-! ## Instructions -/

theorem sample (h : Γ.SameDraft d d') (t : TextureOperand) :
    Γ.Changes (d.sample t) (d'.sample t) := by
  have noted : Γ.SameDraft { d with samplers := d.samplers.insert t.unit t.target }
      { d' with samplers := d'.samplers.insert t.unit t.target } :=
    { h with samplers := by rw [h.samplers] }
  unfold Draft.sample
  rw [h.samplers] at noted ⊢
  dsimp only
  split
  · exact .of_pure noted
  · split
    · exact .of_pure noted
    · exact .of_throw _

theorem write (h : Γ.SameDraft d d') (k : VariableKind) : Γ.Changes (d.write k) (d'.write k) := by
  unfold Draft.write
  rw [h.special]
  split
  · split
    · exact .of_throw _
    · exact .of_pure h
  · exact .of_pure { h with special := rfl }
  · exact .of_pure { h with special := rfl }
  · exact .of_pure h

theorem push (h : Γ.SameDraft d d') {i i' : Instruction} (hi : Γ.SameInstruction i i') :
    Γ.SameDraft (d.push i) (d'.push i') :=
  { h with instructions := List.rel_append h.instructions (.cons hi .nil) }

/-! ## Options -/

theorem setOption (h : Γ.SameDraft d d') (kind : ProgramKind) (name : String) :
    Γ.Changes (d.setOption kind name) (d'.setOption kind name) := by
  obtain ⟨vars', instructions', special', samplers', symbols', precisionHint'⟩ := d'
  obtain rfl : special' = d.special := h.special
  obtain rfl : precisionHint' = d.precisionHint := h.precisionHint
  unfold Draft.setOption
  dsimp only
  split
  case h_1 => exact .of_pure { h with special := rfl }
  case h_2 | h_3 | h_4 =>
    split
    · exact .of_pure { h with special := rfl }
    · exact .of_throw _
  case h_5 | h_6 =>
    split
    · exact .of_throw _
    · exact .of_pure { h with precisionHint := rfl }
  case h_7 => exact .of_throw _

end SameDraft

end ShaderAssembly.Comparison
