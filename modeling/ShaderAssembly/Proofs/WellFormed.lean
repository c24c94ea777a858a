import ShaderAssembly.Draft
/-!
# Well-formed programs

What holds of every program that is read from a text, whatever the text.

* `Register.WellFormed`, `Destination.WellFormed`, `Instruction.WellFormed`: operands name variables
  of the right sort, and there are as many of them as the opcode asks for;
* `Variable.WellFormed`: bindings are those of the program's kind and within the limits;
* **`Model.WellFormed`**, `Draft.WellFormed`: whole programs, finished or not;
* `Draft.Grows`: what reading never takes back;
* **`Instruction.WellFormed.mono`**: an instruction stays well-formed while the draft grows.
-/

namespace ShaderAssembly

/-! ## Bindings -/

/-- A vector of finite numbers. -/
def Vector4.IsFinite (v : Vector4) : Prop := ∀ x ∈ v.toList, x.isFinite = true

/-- A texture unit that has a coordinate set. The first one, which needs no subscript, may lack it. -/
def Limits.HasCoords (limits : Limits) (unit : Nat) : Prop :=
  unit = 0 ∨ unit < limits.maxTextureCoords

/-- A matrix whose texture unit has a coordinate set. -/
def MatrixName.WellFormed (limits : Limits) : MatrixName → Prop
  | .texture unit => limits.HasCoords unit
  | _ => True

/-- A vector of the state that the pipeline has. -/
def StateBinding.WellFormed (limits : Limits) : StateBinding → Prop
  | .matrixRow matrix _ row => matrix.WellFormed limits ∧ row < matrixRowCount
  | .light n _ => n < lightCount
  | .lightProduct n _ property =>
    n < lightCount ∧ property ≠ .emission ∧ property ≠ .shininess
  | .clipPlane n => n < clipPlaneCount
  | .texEnvColor unit => limits.HasCoords unit
  | _ => True

/-- A finite constant, a vector of the state, or a place inside its bank. -/
def ParamBinding.WellFormed (limits : Limits) : ParamBinding → Prop
  | .constant v => v.IsFinite
  | .state b => b.WellFormed limits
  | .env n => n < limits.maxEnvParams
  | .localParam n => n < limits.maxLocalParams

/-- What a variable of a program of a kind may stand for. -/
def VariableKind.WellFormed (kind : ProgramKind) (limits : Limits) : VariableKind → Prop
  | .temporary => True
  | .address => kind = .vertex
  | .input b => b.kind = kind
  | .param b => b.WellFormed limits
  | .paramArray items => items ≠ [] ∧ ∀ b ∈ items, b.WellFormed limits
  | .output b => b.kind = kind

/-- A variable whose name, if it was declared, is a word. -/
structure Variable.WellFormed (kind : ProgramKind) (limits : Limits) (v : Variable) : Prop where
  kind : v.kind.WellFormed kind limits
  name : v.implicit = false → v.name.toList.all isWordChar = true

/-! ## Operands -/

/-- The kind of the variable at a place. -/
def kindAt (vars : List Variable) (i : Nat) : Option VariableKind := vars[i]?.map (·.kind)

/-- Whether a variable is one vector that a source may read. -/
def VariableKind.isVector : VariableKind → Bool
  | .temporary | .input _ | .param _ => true
  | _ => false

/-- A register that stands for a vector: a variable, a place inside an array, or a finite constant.
Only vertex programs compute places. -/
def Register.WellFormed (kind : ProgramKind) (vars : List Variable) : Register → Prop
  | .whole i => ∃ k, kindAt vars i = some k ∧ k.isVector = true
  | .element i n => ∃ items, kindAt vars i = some (.paramArray items) ∧ n < items.length
  | .relative i addr offset =>
    kind = .vertex ∧ (∃ items, kindAt vars i = some (.paramArray items)) ∧
      kindAt vars addr = some .address ∧ -64 ≤ offset ∧ offset ≤ 63
  | .literal v => v.IsFinite

/-- A source that the opcode can read: `ARL` does not compute places, and `SWZ` has its own
swizzle. -/
structure Source.WellFormed (kind : ProgramKind) (vars : List Variable) (opcode : Opcode)
    (s : Source) : Prop where
  register : s.register.WellFormed kind vars
  direct : opcode = .arl → ∀ array addr offset, s.register ≠ .relative array addr offset
  bare : opcode = .swz → s.swizzle = .identity

/-- The features that writing a variable of a kind brings with it. -/
def SpecialCases.Notes (special : SpecialCases) : VariableKind → Prop
  | .output .fogCoord => special.writesFogCoord = true
  | .output .fragDepth => special.writesDepth = true
  | _ => True

/-- A destination that the opcode can write, with its features noted: an address register in its
only component, exactly for `ARL`, and otherwise some components of a temporary or of a result. -/
def Destination.WellFormed (vars : List Variable) (special : SpecialCases) (opcode : Opcode)
    (d : Destination) : Prop :=
  ∃ k, kindAt vars d.var = some k ∧ special.Notes k ∧
    if opcode = .arl then k = .address ∧ d.mask = .onlyX
    else k.isWritable = true ∧ d.mask ≠ .none

/-- A texture at a unit that exists and has the texture's shape. -/
def TextureOperand.WellFormed (limits : Limits) (samplers : Samplers) (t : TextureOperand) : Prop :=
  t.unit < limits.maxTextureUnits ∧ samplers.get? t.unit = some t.target

/-! ## Programs -/

/-- An instruction with the operands that its opcode asks for. -/
structure Instruction.WellFormed (limits : Limits) (m : Model) (i : Instruction) : Prop where
  available : i.opcode.isAvailable m.kind = true
  saturate : i.saturate = true → m.kind = .fragment ∧ i.opcode ≠ .kil
  destination_isSome : i.destination.isSome = i.opcode.shape.hasDestination
  destination : ∀ d ∈ i.destination, d.WellFormed m.vars m.special i.opcode
  sources_length : i.sources.length = i.opcode.shape.sources
  sources : ∀ s ∈ i.sources, s.WellFormed m.kind m.vars i.opcode
  extended_isSome : i.extended.isSome = (i.opcode == .swz)
  texture_isSome : i.texture.isSome = i.opcode.isTexture
  texture : ∀ t ∈ i.texture, t.WellFormed limits m.samplers

/-- Two variables that were declared under one name. -/
def Variable.SameName (v w : Variable) : Prop :=
  v.implicit = false ∧ w.implicit = false ∧ v.name = w.name

/-- **A program as it is read from some text.** -/
structure Model.WellFormed (limits : Limits) (m : Model) : Prop where
  vars : ∀ v ∈ m.vars, v.WellFormed m.kind limits
  names : m.vars.Pairwise fun v w => ¬ v.SameName w
  instructions : ∀ i ∈ m.instructions, i.WellFormed limits m

/-- What a variable stands for is one of the things that it may stand for. -/
theorem Model.WellFormed.kindAt {limits : Limits} {m : Model} (hm : m.WellFormed limits) {i : Nat}
    {k : VariableKind} (h : kindAt m.vars i = some k) : k.WellFormed m.kind limits := by
  obtain ⟨v, hv, rfl⟩ := Option.map_eq_some_iff.1 h
  exact (hm.vars v (List.mem_of_getElem? hv)).kind

/-- A well-formed program as far as it has been read; every declared name is taken. -/
structure Draft.WellFormed (kind : ProgramKind) (limits : Limits) (d : Draft) : Prop where
  model : (d.toModel kind).WellFormed limits
  named : ∀ v ∈ d.vars, v.implicit = false → (d.symbols.lookup v.name).isSome = true

/-! ## Growth -/

/-- **What reading never takes back**: variables and instructions stay where they are, features stay
on, and names and units keep what they stand for. -/
structure Draft.Grows (d d' : Draft) : Prop where
  vars : d.vars <+: d'.vars
  instructions : d.instructions <+: d'.instructions
  symbols : ∀ name i, d.symbols.lookup name = some i → d'.symbols.lookup name = some i
  samplers : ∀ unit target, d.samplers.get? unit = some target → d'.samplers.get? unit = some target
  writesFogCoord : d.special.writesFogCoord = true → d'.special.writesFogCoord = true
  writesDepth : d.special.writesDepth = true → d'.special.writesDepth = true
  positionInvariant : d.special.positionInvariant = true → d'.special.positionInvariant = true
  fog : d.special.fog ≠ .none → d'.special.fog = d.special.fog

theorem Draft.Grows.refl (d : Draft) : d.Grows d where
  vars := List.prefix_refl _
  instructions := List.prefix_refl _
  symbols _ _ h := h
  samplers _ _ h := h
  writesFogCoord h := h
  writesDepth h := h
  positionInvariant h := h
  fog _ := rfl

theorem Draft.Grows.trans {d d' d'' : Draft} (h : d.Grows d') (h' : d'.Grows d'') :
    d.Grows d'' where
  vars := h.vars.trans h'.vars
  instructions := h.instructions.trans h'.instructions
  symbols name i e := h'.symbols name i (h.symbols name i e)
  samplers unit target e := h'.samplers unit target (h.samplers unit target e)
  writesFogCoord e := h'.writesFogCoord (h.writesFogCoord e)
  writesDepth e := h'.writesDepth (h.writesDepth e)
  positionInvariant e := h'.positionInvariant (h.positionInvariant e)
  fog e := by
    have e' := h.fog e
    rw [h'.fog (by rwa [e']), e']

theorem kindAt_mono {vars vars' : List Variable} (h : vars <+: vars') {i : Nat} {k : VariableKind}
    (e : kindAt vars i = some k) : kindAt vars' i = some k := by
  obtain ⟨more, rfl⟩ := h
  obtain ⟨v, hv, rfl⟩ := Option.map_eq_some_iff.1 e
  rw [kindAt, List.getElem?_append_left (List.getElem?_eq_some_iff.1 hv).1, hv]
  rfl

theorem Draft.Grows.kindAt {d d' : Draft} (h : d.Grows d') {i : Nat} {k : VariableKind}
    (e : kindAt d.vars i = some k) : kindAt d'.vars i = some k := kindAt_mono h.vars e

theorem Register.WellFormed.mono {kind : ProgramKind} {vars vars' : List Variable} {r : Register}
    (h : vars <+: vars') (hr : r.WellFormed kind vars) : r.WellFormed kind vars' := by
  cases r with
  | whole i =>
    obtain ⟨k, hk, hv⟩ := hr
    exact ⟨k, kindAt_mono h hk, hv⟩
  | element i n =>
    obtain ⟨items, hi, hn⟩ := hr
    exact ⟨items, kindAt_mono h hi, hn⟩
  | relative i addr offset =>
    obtain ⟨hk, ⟨items, hi⟩, ha, ho⟩ := hr
    exact ⟨hk, ⟨items, kindAt_mono h hi⟩, kindAt_mono h ha, ho⟩
  | literal v => exact hr

theorem Source.WellFormed.mono {kind : ProgramKind} {vars vars' : List Variable} {opcode : Opcode}
    {s : Source} (h : vars <+: vars') (hs : s.WellFormed kind vars opcode) :
    s.WellFormed kind vars' opcode := ⟨hs.register.mono h, hs.direct, hs.bare⟩

theorem Draft.Grows.notes {d d' : Draft} (h : d.Grows d') {k : VariableKind}
    (hk : d.special.Notes k) : d'.special.Notes k := by
  unfold SpecialCases.Notes at hk ⊢
  split
  · exact h.writesFogCoord hk
  · exact h.writesDepth hk
  · trivial

theorem Destination.WellFormed.mono {d d' : Draft} (h : d.Grows d') {opcode : Opcode}
    {t : Destination} (ht : t.WellFormed d.vars d.special opcode) :
    t.WellFormed d'.vars d'.special opcode := by
  obtain ⟨k, hk, hn, hm⟩ := ht
  exact ⟨k, h.kindAt hk, h.notes hn, hm⟩

/-- **An instruction stays well-formed while the draft grows.** -/
theorem Instruction.WellFormed.mono {kind : ProgramKind} {limits : Limits} {d d' : Draft}
    {i : Instruction} (h : d.Grows d') (hi : i.WellFormed limits (d.toModel kind)) :
    i.WellFormed limits (d'.toModel kind) where
  available := hi.available
  saturate := hi.saturate
  destination_isSome := hi.destination_isSome
  destination t ht := (hi.destination t ht).mono h
  sources_length := hi.sources_length
  sources s hs := (hi.sources s hs).mono h.vars
  extended_isSome := hi.extended_isSome
  texture_isSome := hi.texture_isSome
  texture t ht := ⟨(hi.texture t ht).1, h.samplers _ _ (hi.texture t ht).2⟩

end ShaderAssembly
