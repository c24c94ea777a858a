import ShaderAssembly.Draft
import ShaderAssembly.Proofs.Framing.Step
import ShaderAssembly.Proofs.Locality.Scan
/-!
# What is refused for the sake of a limit

A fault that names a limit names the right one, and the count or the index that it names has reached
it. The index is the one that the text has at the place that is blamed.

* `Limits.ofIndex?`, `Limits.ofBank?`: the limits of what is numbered;
* `Draft.count`, `Draft.Counted`: the number of variables of a kind;
* `Token.IndexAt`, `Token.UnitAt`: what is written at a place;
* **`Fault.IsJust`**: a fault that is right about its limit;
* **`Scan.BlamesJustly`**: a scan whose faults are just, with one instance for each scan.
-/

namespace ShaderAssembly

/-! ## Limits and places -/

/-- The number below which the things of a name are numbered. -/
def Limits.ofIndex? (limits : Limits) : String → Option Nat
  | "light" => some lightCount
  | "clip plane" => some clipPlaneCount
  | "matrix row" => some matrixRowCount
  | "texture coordinate set" | "texture matrix" | "texture environment" =>
    some limits.maxTextureCoords
  | _ => none

/-- The number of parameters in a bank. -/
def Limits.ofBank? (limits : Limits) : String → Option Nat
  | "env" => some limits.maxEnvParams
  | "local" => some limits.maxLocalParams
  | _ => none

/-- The number of variables of a kind. -/
def Draft.count (d : Draft) (kind : VariableKind) : Nat := d.vars.countP (·.kind == kind)

/-- A draft that counts its variables as many as they are. -/
structure Draft.Counted (d : Draft) : Prop where
  temporaries : d.temporaryCount = d.count .temporary
  addresses : d.addressCount = d.count .address

namespace Token

/-- At byte `offset` stands the number `n`, or a range that ends with it. -/
def IndexAt (ts : List Token) (offset n : Nat) : Prop :=
  ∃ t, t.offset = offset ∧ (t ∈ ts ∧ t.kind = .integer n ∨
    ∃ dots last, [t, dots, last] <:+: ts ∧ dots.kind = .dotDot ∧ last.kind = .integer n)

/-- At byte `offset` stands the texture image unit `n`; the first one needs no subscript. -/
def UnitAt (ts : List Token) (offset n : Nat) : Prop :=
  ∃ name, name.offset = offset ∧ name.text = "texture" ∧ (name ∈ ts ∧ n = 0 ∨
    ∃ bracket number, [name, bracket, number] <:+: ts ∧ bracket.kind = .leftBracket ∧
      number.kind = .integer n)

theorem IndexAt.mono {ts ts' : List Token} {offset n : Nat} (hts : ts <:+ ts')
    (h : IndexAt ts offset n) : IndexAt ts' offset n := by
  obtain ⟨t, ht, ⟨hmem, hn⟩ | ⟨dots, last, hpart, hn⟩⟩ := h
  · exact ⟨t, ht, .inl ⟨hts.mem hmem, hn⟩⟩
  · exact ⟨t, ht, .inr ⟨dots, last, hpart.trans hts.isInfix, hn⟩⟩

end Token

/-! ## Just faults -/

/-- **A fault that is right about its limit**: the draft has as many instructions or registers as
there may be, or the index that the text has at the place that is blamed is not below the limit.
Some indices are zero where they are left out. -/
def Fault.IsJust (limits : Limits) (ts : List Token) (d : Draft) (f : Fault) : Prop :=
  match f.cause with
  | .tooManyInstructions limit => limit = limits.maxInstructions ∧ limit ≤ d.instructions.length
  | .tooManyTemporaries limit => limit = limits.maxTemporaries ∧ limit ≤ d.count .temporary
  | .tooManyAddressRegisters limit =>
    limit = limits.maxAddressRegisters ∧ limit ≤ d.count .address
  | .bankLimit bank n limit =>
    limits.ofBank? bank = some limit ∧ limit ≤ n ∧ Token.IndexAt ts f.offset n
  | .textureUnit n limit =>
    limit = limits.maxTextureUnits ∧ limit ≤ n ∧ Token.UnitAt ts f.offset n
  | .indexLimit what n limit =>
    limits.ofIndex? what = some limit ∧ limit ≤ n ∧ (Token.IndexAt ts f.offset n ∨ n = 0)
  | _ => True

/-- Whether a cause names none of these limits. -/
@[reducible] def Cause.isPlain : Cause → Bool
  | .tooManyInstructions _ | .tooManyTemporaries _ | .tooManyAddressRegisters _ => false
  | .bankLimit _ _ _ | .textureUnit _ _ | .indexLimit _ _ _ => false
  | _ => true

/-- A test that comes out true by itself. -/
class Checked (b : Bool) : Prop where
  eq_true : b = true

instance : Checked true := ⟨rfl⟩

variable {α β : Type} {limits : Limits} {ts : List Token}

theorem Fault.isJust_of_isPlain {d : Draft} {f : Fault} (h : f.cause.isPlain = true) :
    f.IsJust limits ts d := by
  unfold Fault.IsJust
  split
  case h_7 => trivial
  all_goals
    rename_i hcause
    rw [hcause] at h
    cases h

variable (limits ts) in
/-- A scan of some of the tokens `ts` whose faults are just. -/
class Scan.BlamesJustly (scan : Scan α) : Prop where
  just {c d : Cursor} {f : Fault} : c.rest <:+ ts → scan c = .error f d →
    ∀ draft, f.IsJust limits ts draft

namespace Scan

/-! ## Single steps -/

instance (a : α) : BlamesJustly limits ts (pure a : Scan α) where
  just _ e := nomatch e

instance : BlamesJustly limits ts next where
  just _ e := nomatch e

instance : BlamesJustly limits ts peek where
  just _ e := nomatch e

instance (cause : Cause) (offset : Nat) [h : Checked cause.isPlain] :
    BlamesJustly limits ts (refuse cause offset : Scan α) where
  just _ e _ := by
    cases e
    exact Fault.isJust_of_isPlain h.eq_true

instance (wanted : String) (found : Token) :
    BlamesJustly limits ts (unexpected wanted found : Scan α) :=
  inferInstanceAs (BlamesJustly limits ts (refuse (.unexpected wanted found) found.offset))

/-- A step behind another one, where the value of the first one matters. -/
theorem BlamesJustly.behind {scan : Scan α} {f : α → Scan β} [IsLocal scan]
    [h : BlamesJustly limits ts scan]
    (hf : ∀ a c d, c.rest <:+ ts → scan c = .ok a d → BlamesJustly limits ts (f a)) :
    BlamesJustly limits ts (scan >>= f) where
  just hc e := by
    obtain e | ⟨a, d, e₁, e₂⟩ := Reading.bind_eq_error.1 e
    · exact h.just hc e
    · exact (hf a _ d hc e₁).just ((IsLocal.suffix e₁).trans hc) e₂

instance (scan : Scan α) (f : α → Scan β) [IsLocal scan] [BlamesJustly limits ts scan]
    [hf : ∀ a, BlamesJustly limits ts (f a)] : BlamesJustly limits ts (scan >>= f) :=
  .behind fun a _ _ _ _ => hf a

/-- A step behind another one, where the cases of what follows are still to be told apart. -/
theorem BlamesJustly.andThen {scan : Scan α} {f : α → Scan β} [IsLocal scan]
    [BlamesJustly limits ts scan] (hf : ∀ a, BlamesJustly limits ts (f a)) :
    BlamesJustly limits ts (scan >>= f) := inferInstance

/-- What is made of a value is not refused. -/
theorem BlamesJustly.map {scan : Scan α} [h : BlamesJustly limits ts scan] (g : α → β) :
    BlamesJustly limits ts (do return g (← scan)) where
  just hc e := by
    obtain e | ⟨a, d, -, e⟩ := Reading.bind_eq_error.1 e
    · exact h.just hc e
    · cases e

/-- Nothing follows a refusal. -/
instance (cause : Cause) (offset : Nat) (f : α → Scan β) [Checked cause.isPlain] :
    BlamesJustly limits ts (refuse cause offset >>= f) :=
  .behind fun _ _ _ _ e => nomatch e

instance (wanted : String) (found : Token) (f : α → Scan β) :
    BlamesJustly limits ts (unexpected wanted found >>= f) :=
  .behind fun _ _ _ _ e => nomatch e

instance (p : Prop) [Decidable p] (scan scan' : Scan α) [BlamesJustly limits ts scan]
    [BlamesJustly limits ts scan'] : BlamesJustly limits ts (if p then scan else scan') := by
  split <;> assumption

instance (accepted : List String) : BlamesJustly limits ts (suffix? accepted) where
  just _ e := by
    rw [suffix?_eq] at e
    split at e <;> cases e

instance (kind : TokenKind) (wanted : String) : BlamesJustly limits ts (expect kind wanted) := by
  unfold expect
  infer_instance

instance (wanted : String) : BlamesJustly limits ts (word wanted) := by
  unfold word
  infer_instance

instance (text : String) : BlamesJustly limits ts (keyword text) := by
  unfold keyword
  infer_instance

instance (wanted : String) : BlamesJustly limits ts (integer wanted) := by
  unfold integer
  refine .andThen fun t => ?_
  split <;> infer_instance

instance : BlamesJustly limits ts index := by
  unfold index
  infer_instance

instance : BlamesJustly limits ts index? := by
  unfold index?
  infer_instance

instance : BlamesJustly limits ts range := by
  unfold range
  refine .andThen fun _ => .andThen fun start => .andThen fun t => ?_
  split <;> infer_instance

/-! ## Numbers in the text -/

theorem rest_of_integer {wanted : String} {c d : Cursor} {n : Located Nat}
    (e : integer wanted c = .ok n d) :
    ∃ t, c.rest = t :: d.rest ∧ t.kind = .integer n.value ∧ t.offset = n.offset := by
  obtain ⟨_, hkind, rfl, rfl⟩ := integer_eq_ok.1 e
  exact ⟨c.upcoming, Cursor.rest_of_upcoming (by rw [hkind]; exact nofun), hkind, rfl⟩

/-- A subscript is read for good. -/
theorem rest_of_index {c d : Cursor} {n : Located Nat} (e : index c = .ok n d) :
    ∃ left t right, c.rest = left :: t :: right :: d.rest ∧ left.kind = .leftBracket ∧
      t.kind = .integer n.value ∧ t.offset = n.offset := by
  obtain ⟨⟨hleft, hnumber, hright, rfl⟩, hoffset⟩ := index_eq_ok.1 e
  have hrest {c : Cursor} {kind : TokenKind} (h : c.upcoming.kind = kind) (hkind : kind ≠ .endOfText) :
      c.rest = c.upcoming :: c.advance.rest := Cursor.rest_of_upcoming (h ▸ hkind)
  refine ⟨c.upcoming, c.advance.upcoming, c.advance.advance.upcoming, ?_, hleft, hnumber, hoffset.symm⟩
  rw [hrest hleft (by decide), hrest hnumber nofun, hrest hright (by decide)]

theorem indexAt_of_index {c d : Cursor} {n : Located Nat} (hc : c.rest <:+ ts)
    (e : index c = .ok n d) : Token.IndexAt ts n.offset n.value := by
  obtain ⟨left, t, right, hrest, -, ht, hoffset⟩ := rest_of_index e
  refine Token.IndexAt.mono hc ⟨t, hoffset, .inl ⟨?_, ht⟩⟩
  simp [hrest]

/-- A range is blamed where it starts, and ends with its last number. -/
theorem indexAt_of_range {c d : Cursor} {rows : Located (Nat × Nat)} (hc : c.rest <:+ ts)
    (e : range c = .ok rows d) : Token.IndexAt ts rows.offset rows.value.2 := by
  refine Token.IndexAt.mono hc ?_
  obtain ⟨_, c₁, e₁, e⟩ := bind_eq_ok.1 e
  obtain ⟨start, c₂, e₂, e⟩ := bind_eq_ok.1 e
  obtain ⟨t, c₃, e₃, e⟩ := bind_eq_ok.1 e
  obtain ⟨h₁, -⟩ := rest_of_expect (by decide) e₁
  obtain ⟨first, h₂, hfirst, hoffset⟩ := rest_of_integer e₂
  cases hkind : t.kind with
  | rightBracket =>
    simp only [hkind] at e
    cases e
    exact ⟨first, hoffset, .inl ⟨by simp [h₁, h₂], hfirst⟩⟩
  | dotDot =>
    simp only [hkind] at e
    have h₃ := rest_of_next e₃ (by rw [hkind]; exact nofun)
    obtain ⟨stop, c₄, e₄, e⟩ := bind_eq_ok.1 e
    obtain ⟨last, h₄, hlast, -⟩ := rest_of_integer e₄
    obtain ⟨_, c₅, e₅, e⟩ := bind_eq_ok.1 e
    split at e
    · cases e
    · cases e
      exact ⟨first, hoffset, .inr ⟨t, last, ⟨[c₁.current], c₄.rest, by simp [h₁, h₂, h₃, h₄]⟩, hkind, hlast⟩⟩
  | _ =>
    simp only [hkind] at e
    cases e

/-- An index that the text has, or that is left out, is refused with reason. -/
theorem below_blamesJustly (limit : Nat) (what : String) {n : Located Nat}
    (hlimit : limits.ofIndex? what = some limit)
    (hn : Token.IndexAt ts n.offset n.value ∨ n.value = 0) :
    BlamesJustly limits ts (below limit what n) where
  just _ e _ := by
    unfold below at e
    split at e
    · cases e
      exact ⟨hlimit, ‹_›, hn⟩
    · cases e

variable (kind : ProgramKind)

/-! ## Constants -/

instance (first : Token) : BlamesJustly limits ts (number first) := by
  unfold number
  split <;> infer_instance

instance (first : Token) : BlamesJustly limits ts (signedNumber first) := by
  unfold signedNumber
  split <;> infer_instance

instance (room : Nat) : BlamesJustly limits ts (components room) := by
  induction room with
  | zero =>
    unfold components
    infer_instance
  | succ room ih =>
    unfold components
    refine .andThen fun first => .andThen fun v => .andThen fun t => ?_
    split <;> infer_instance

instance : BlamesJustly limits ts vector := by
  unfold vector
  infer_instance

/-! ## Selectors -/

instance : BlamesJustly limits ts (selector? kind) := by
  unfold selector?
  refine .andThen fun point => ?_
  split
  · infer_instance
  refine .andThen fun _ => .andThen fun t => ?_
  split <;> infer_instance

instance : BlamesJustly limits ts (swizzle kind) := by
  unfold swizzle
  refine .andThen fun selected => ?_
  split
  · infer_instance
  · split <;> infer_instance

instance : BlamesJustly limits ts (mask kind) := by
  unfold mask
  refine .andThen fun selected => ?_
  split
  · infer_instance
  · split <;> infer_instance

instance (t : Token) : BlamesJustly limits ts (selection kind t) := by
  unfold selection
  split
  · infer_instance
  · infer_instance
  · split
    · split <;> infer_instance
    · infer_instance
  · infer_instance

instance : BlamesJustly limits ts (signedSelection kind) := by
  unfold signedSelection
  refine .andThen fun _ => .andThen fun t => ?_
  split <;> infer_instance

instance : BlamesJustly limits ts (extendedSwizzle kind) := by
  unfold extendedSwizzle
  infer_instance

/-! ## Attributes and results -/

instance : BlamesJustly limits ts colorSet := by
  unfold colorSet
  infer_instance

instance : BlamesJustly limits ts face := by
  unfold face
  infer_instance

instance (name : Token) : BlamesJustly limits ts (texCoord limits name) := by
  unfold texCoord
  refine .behind fun n c d hc e => ?_
  have hn : Token.IndexAt ts (n.getD ⟨0, name.offset⟩).offset (n.getD ⟨0, name.offset⟩).value ∨
      (n.getD ⟨0, name.offset⟩).value = 0 := by
    cases n with
    | none => exact .inr rfl
    | some n => exact .inl (indexAt_of_index hc (index?_eq_some.1 e))
  have := below_blamesJustly limits.maxTextureCoords "texture coordinate set" rfl hn
  infer_instance

instance (root : Token) : BlamesJustly limits ts (inputBinding kind limits root) := by
  unfold inputBinding
  split
  · infer_instance
  refine .andThen fun _ => .andThen fun name => ?_
  split
  case h_6 =>
    refine .andThen fun n => ?_
    split <;> infer_instance
  all_goals infer_instance

instance : BlamesJustly limits ts (outputBinding kind limits) := by
  unfold outputBinding
  refine .andThen fun _ => .andThen fun name => ?_
  split <;> infer_instance

/-! ## State of the fixed pipeline -/

instance : BlamesJustly limits ts materialProperty := by
  unfold materialProperty
  refine .andThen fun name => ?_
  split <;> infer_instance

instance : BlamesJustly limits ts productProperty := by
  unfold productProperty
  refine .andThen fun name => ?_
  split <;> infer_instance

instance : BlamesJustly limits ts lightIndex := by
  unfold lightIndex
  refine .behind fun n c d hc e => ?_
  have : BlamesJustly limits ts (below lightCount "light" n) := below_blamesJustly _ _ rfl
    (.inl (indexAt_of_index hc e))
  infer_instance

instance : BlamesJustly limits ts lightProperty := by
  unfold lightProperty
  refine .andThen fun name => ?_
  split <;> infer_instance

theorem coordUnit_blamesJustly {what : String}
    (h : limits.ofIndex? what = some limits.maxTextureCoords) :
    BlamesJustly limits ts (coordUnit limits what) := by
  unfold coordUnit
  refine .behind fun n c d hc e => ?_
  split
  · infer_instance
  · have := below_blamesJustly _ _ h (.inl (indexAt_of_index hc (index?_eq_some.1 e)))
    infer_instance

instance : BlamesJustly limits ts (coordUnit limits "texture matrix") :=
  coordUnit_blamesJustly rfl

instance : BlamesJustly limits ts (coordUnit limits "texture environment") :=
  coordUnit_blamesJustly rfl

instance : BlamesJustly limits ts (matrixName limits) := by
  unfold matrixName
  refine .andThen fun name => ?_
  split
  case h_1 =>
    refine .andThen fun n => ?_
    split <;> infer_instance
  all_goals infer_instance

instance : BlamesJustly limits ts matrixModifier := by
  unfold matrixModifier
  refine .andThen fun modifier => ?_
  split <;> infer_instance

instance : BlamesJustly limits ts matrixRows := by
  unfold matrixRows
  refine .andThen fun row => ?_
  split
  · infer_instance
  · refine .behind fun rows c d hc e => ?_
    have : BlamesJustly limits ts (below matrixRowCount "matrix row" ⟨rows.value.2, rows.offset⟩) :=
      below_blamesJustly _ _ rfl (.inl (indexAt_of_range hc e))
    infer_instance

instance : BlamesJustly limits ts (matrixBinding limits) := by
  unfold matrixBinding
  infer_instance

instance : BlamesJustly limits ts (stateBinding limits) := by
  unfold stateBinding
  refine .andThen fun _ => .andThen fun group => ?_
  split
  case h_4 | h_6 | h_8 =>
    refine .andThen fun _ => .andThen fun name => ?_
    split <;> infer_instance
  case h_7 =>
    refine .behind fun n c d hc e => ?_
    have : BlamesJustly limits ts (below clipPlaneCount "clip plane" n) := below_blamesJustly _ _ rfl
      (.inl (indexAt_of_index hc e))
    infer_instance
  all_goals infer_instance

/-! ## Parameters -/

/-- A place in a bank is refused if it is not inside the bank. -/
theorem bankPlaces_blamesJustly {bank : Token} {limit : Nat} (hlimit : limits.ofBank? bank.text = some limit)
    (place : Nat → ParamBinding) (root : Token) (multiple : Bool) :
    BlamesJustly limits ts (do
      let places ← range
      if !multiple && places.value.1 != places.value.2 then
        refuse .bankRangeOutsideArray root.offset
      if limit ≤ places.value.2 then
        refuse (.bankLimit bank.text places.value.2 limit) places.offset
      return (span places.value.1 places.value.2).map place) := by
  refine .behind fun places c d hc e => ?_
  dsimp only
  split
  · infer_instance
  · split
    · refine ⟨fun _ e' _ => ?_⟩
      cases e'
      exact ⟨hlimit, ‹_›, indexAt_of_range hc e⟩
    · infer_instance

instance (root : Token) (multiple : Bool) :
    BlamesJustly limits ts (bankBinding limits root multiple) := by
  unfold bankBinding
  refine .andThen fun _ => .andThen fun bank => ?_
  dsimp only
  split
  · exact bankPlaces_blamesJustly (by simp [Limits.ofBank?, *]) _ root multiple
  · exact bankPlaces_blamesJustly (by simp [Limits.ofBank?, *]) _ root multiple
  · infer_instance

instance (first : Token) (multiple : Bool) :
    BlamesJustly limits ts (paramItem limits first multiple) := by
  unfold paramItem
  split
  case h_6 => split <;> infer_instance
  all_goals infer_instance

instance (first : Token) : BlamesJustly limits ts (singleParam limits first) := by
  unfold singleParam
  refine .andThen fun items => ?_
  split <;> infer_instance

instance (bound : Nat) : BlamesJustly limits ts (paramItemsWithin limits bound) := by
  induction bound with
  | zero =>
    unfold paramItemsWithin
    infer_instance
  | succ bound ih =>
    unfold paramItemsWithin
    refine .andThen fun first => .andThen fun items => .andThen fun t => ?_
    split
    · exact .map (items ++ ·)
    · infer_instance
    · infer_instance

instance : BlamesJustly limits ts (paramItems limits) where
  just hc e := (inferInstance : BlamesJustly limits ts (paramItemsWithin limits _)).just hc e

end Scan

end ShaderAssembly
