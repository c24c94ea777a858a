import Mathlib.Logic.Relation
import ShaderAssembly.Proofs.Editing.Blame
import ShaderAssembly.Proofs.Parsing.Binding
import ShaderAssembly.Proofs.Summary.Instruction
import ShaderAssembly.Statement.Declaration
/-!
# Edits of drafts

All that reading does to a draft is a sequence of a few edits.

* `Token.SpellsAttribute`, `VariableKind.SpelledIn`: what the text says of a binding;
* **`Draft.Notes`**: the edits that an operand makes, which leave names and instructions alone;
* `Draft.Declaration`: the edits that a declaration makes, which leave instructions alone;
* **`Draft.Edit`**: the edits of any statement;
* `Scan.inputBinding_givesAt`, `Scan.outputBinding_spelledIn`: bindings that are scanned are spelled
  in the text.
-/

namespace ShaderAssembly

/-! ## Bindings in the text -/

/-- The tokens say `.attrib[n]`. -/
def Token.SpellsAttribute (ts : List Token) (n : Nat) : Prop :=
  ∃ point name left number, [point, name, left, number] <:+: ts ∧ point.kind = .dot ∧
    name.text = "attrib" ∧ left.kind = .leftBracket ∧ number.kind = .integer n

theorem Token.SpellsAttribute.mono {ts ts' : List Token} {n : Nat} (hts : ts <:+: ts')
    (h : SpellsAttribute ts n) : SpellsAttribute ts' n := by
  obtain ⟨point, name, left, number, hpart, hkinds⟩ := h
  exact ⟨point, name, left, number, hpart.trans hts, hkinds⟩

/-- The texture coordinate set of an attribute or of a result is below its limit, unless the text
names it as a numbered vertex attribute. -/
def VariableKind.SpelledIn (limits : Limits) (ts : List Token) : VariableKind → Prop
  | .input (.vertexTexCoord n) =>
    n < limits.maxTextureCoords ∨ n < 8 ∧ Token.SpellsAttribute ts (n + 8)
  | .input (.fragmentTexCoord n) | .output (.texCoord n) => n < limits.maxTextureCoords
  | _ => True

/-- Whether an operand may spell the variable out. -/
def VariableKind.isBinding : VariableKind → Bool
  | .input _ | .output _ => true
  | .param (.state _) | .param (.env _) | .param (.localParam _) => true
  | _ => false

theorem VariableKind.isBinding_iff {k : VariableKind} : k.isBinding = true ↔
    (∃ b, k = .input b) ∨ (∃ b, k = .param b ∧ ∀ v, b ≠ .constant v) ∨ ∃ b, k = .output b := by
  cases k with
  | param b => cases b <;> simp [isBinding]
  | _ => simp [isBinding]

/-! ## Edits -/

namespace Draft

/-- An edit that an operand makes: a variable for a binding that has none yet, a feature of what is
written, or a texture at a unit that there is. -/
inductive Notes (limits : Limits) (ts : List Token) : Draft → Draft → Prop
  | imply {d : Draft} {kind : VariableKind} (text : String) (offset : Nat) :
    d.implied? kind = none → kind.isBinding = true → kind.SpelledIn limits ts →
      Notes limits ts d (d.imply text kind offset)
  | write {d d' : Draft} {kind : VariableKind} : d.write kind = .ok d' → Notes limits ts d d'
  | sample {d d' : Draft} {t : TextureOperand} :
    t.unit < limits.maxTextureUnits → d.sample t = .ok d' → Notes limits ts d d'

/-- An edit that a statement makes: one of an operand, a new name for a variable that is new or that
has a name already, a feature, or an instruction for which there is room. -/
inductive Edit (kind : ProgramKind) (limits : Limits) (ts : List Token) : Draft → Draft → Prop
  | note {d d' : Draft} : Notes limits ts d d' → Edit kind limits ts d d'
  | declare {d d' : Draft} {name : Token} {variableKind : VariableKind} :
    name ∈ ts → name.kind = .identifier → variableKind.SpelledIn limits ts →
      d.declare limits name.text variableKind name.offset = .ok d' → Edit kind limits ts d d'
  | nameAlso {d d' : Draft} {name : Token} {other : String} {i : Nat} {v : Variable} :
    name ∈ ts → name.kind = .identifier → d.lookup? other = some (i, v) →
      d.nameAlso name.text i = .ok d' → Edit kind limits ts d d'
  | option {d d' : Draft} {name : String} :
    d.setOption kind name = .ok d' → Edit kind limits ts d d'
  | push {d : Draft} {i : Instruction} :
    d.instructions.length < limits.maxInstructions → Edit kind limits ts d (d.push i)

/-- An edit that a declaration makes: any edit of a statement but those of an instruction. -/
inductive Declaration (kind : ProgramKind) (limits : Limits) (ts : List Token) : Draft → Draft → Prop
  | declare {d d' : Draft} {name : Token} {variableKind : VariableKind} :
    name ∈ ts → name.kind = .identifier → variableKind.SpelledIn limits ts →
      d.declare limits name.text variableKind name.offset = .ok d' → Declaration kind limits ts d d'
  | nameAlso {d d' : Draft} {name : Token} {other : String} {i : Nat} {v : Variable} :
    name ∈ ts → name.kind = .identifier → d.lookup? other = some (i, v) →
      d.nameAlso name.text i = .ok d' → Declaration kind limits ts d d'
  | option {d d' : Draft} {name : String} :
    d.setOption kind name = .ok d' → Declaration kind limits ts d d'

/-! ## Their shape -/

variable {kind : ProgramKind} {limits : Limits} {ts : List Token} {d d' : Draft}

theorem Declaration.edit (h : Declaration kind limits ts d d') : Edit kind limits ts d d' := by
  cases h with
  | declare hmem hword hspelled h => exact .declare hmem hword hspelled h
  | nameAlso hmem hword hlookup h => exact .nameAlso hmem hword hlookup h
  | option h => exact .option h

theorem declare_eq_ok {name : String} {k : VariableKind} {offset : Nat}
    (h : d.declare limits name k offset = .ok d') :
    d.checkName name = .ok () ∧ d.checkCount limits k = .ok () ∧
      d' = { d with
        vars := d.vars ++ [{ name, kind := k, offset }]
        symbols := (name, d.vars.length) :: d.symbols
        temporaryCount := if k = .temporary then d.temporaryCount + 1 else d.temporaryCount
        addressCount := if k = .address then d.addressCount + 1 else d.addressCount } := by
  unfold declare at h
  cases hname : d.checkName name with
  | error cause =>
    rw [hname] at h
    cases h
  | ok u =>
    cases hcount : d.checkCount limits k with
    | error cause =>
      rw [hname, hcount] at h
      cases h
    | ok u' =>
      rw [hname, hcount] at h
      cases h
      exact ⟨rfl, rfl, rfl⟩

theorem nameAlso_eq_ok {name : String} {i : Nat} (h : d.nameAlso name i = .ok d') :
    d.checkName name = .ok () ∧ d' = { d with symbols := (name, i) :: d.symbols } := by
  unfold nameAlso at h
  cases hname : d.checkName name with
  | error cause =>
    rw [hname] at h
    cases h
  | ok u =>
    rw [hname] at h
    cases h
    exact ⟨rfl, rfl⟩

theorem checkCount_eq_ok {k : VariableKind} {u : Unit} (h : d.checkCount limits k = .ok u) :
    (k = .temporary → d.temporaryCount < limits.maxTemporaries) ∧
      (k = .address → d.addressCount < limits.maxAddressRegisters) := by
  unfold checkCount at h
  split at h
  · split at h
    · cases h
    · exact ⟨fun _ => Nat.lt_of_not_le ‹_›, nofun⟩
  · split at h
    · cases h
    · exact ⟨nofun, fun _ => Nat.lt_of_not_le ‹_›⟩
  · rename_i htemporary haddress
    exact ⟨fun e => absurd e htemporary, fun e => absurd e haddress⟩

theorem setOption_eq_ok {name : String} (h : d.setOption kind name = .ok d') :
    d' = { d with special := d'.special, precisionHint := d'.precisionHint } := by
  unfold setOption at h
  dsimp only at h
  split at h
  case h_1 =>
    cases h
    rfl
  case h_7 => cases h
  all_goals
    split at h <;> cases h
    rfl

namespace Notes

/-- A note leaves the instructions and the names alone, and adds implicit variables only. -/
theorem frame (h : Notes limits ts d d') :
    d'.instructions = d.instructions ∧ d'.symbols = d.symbols ∧
      ∃ more, d'.vars = d.vars ++ more ∧ ∀ v ∈ more, v.implicit = true := by
  cases h with
  | imply text offset => exact ⟨rfl, rfl, _, rfl, by simp⟩
  | write h =>
    rw [(afterWrite_of_write h).1]
    exact ⟨rfl, rfl, [], (List.append_nil _).symm, List.forall_mem_nil _⟩
  | sample _ h =>
    rw [(samplers_of_sample h).1]
    exact ⟨rfl, rfl, [], (List.append_nil _).symm, List.forall_mem_nil _⟩

/-- So do any number of them. -/
theorem frame_of_many (h : Relation.ReflTransGen (Notes limits ts) d d') :
    d'.instructions = d.instructions ∧ d'.symbols = d.symbols ∧
      ∃ more, d'.vars = d.vars ++ more ∧ ∀ v ∈ more, v.implicit = true := by
  induction h with
  | refl => exact ⟨rfl, rfl, [], (List.append_nil _).symm, List.forall_mem_nil _⟩
  | tail _ hnote ih =>
    obtain ⟨hinstructions, hsymbols, more, hvars, hmore⟩ := ih
    obtain ⟨hinstructions', hsymbols', more', hvars', hmore'⟩ := hnote.frame
    refine ⟨hinstructions'.trans hinstructions, hsymbols'.trans hsymbols, more ++ more', ?_, ?_⟩
    · rw [hvars', hvars, List.append_assoc]
    · intro v hv
      exact (List.mem_append.1 hv).elim (hmore v) (hmore' v)

end Notes

/-- Declarations leave the instructions alone, and add no implicit variable. -/
theorem Declaration.frame_of_many (h : Relation.ReflTransGen (Declaration kind limits ts) d d') :
    d'.instructions = d.instructions ∧
      ∃ more, d'.vars = d.vars ++ more ∧ ∀ v ∈ more, v.implicit = false := by
  induction h with
  | refl => exact ⟨rfl, [], (List.append_nil _).symm, List.forall_mem_nil _⟩
  | tail _ hdeclaration ih =>
    obtain ⟨hinstructions, more, hvars, hmore⟩ := ih
    cases hdeclaration with
    | @declare name k _ _ _ h =>
      obtain ⟨-, -, rfl⟩ := declare_eq_ok h
      refine ⟨hinstructions, more ++ [{ name := name.text, kind := k, offset := name.offset }], ?_,
        List.forall_mem_append.2 ⟨hmore, List.forall_mem_singleton.2 rfl⟩⟩
      dsimp only
      rw [hvars, List.append_assoc]
    | nameAlso _ _ _ h =>
      obtain ⟨-, rfl⟩ := nameAlso_eq_ok h
      exact ⟨hinstructions, more, hvars, hmore⟩
    | option h =>
      rw [setOption_eq_ok h]
      exact ⟨hinstructions, more, hvars, hmore⟩

theorem isPlain_of_checkName {name : String} {cause : Cause} (h : d.checkName name = .error cause) :
    cause.isPlain = true := by
  unfold checkName at h
  split at h
  · cases h
    rfl
  split at h
  · cases h
    rfl
  · cases h

theorem isJust_of_checkCount {k : VariableKind} {cause : Cause} {offset : Nat} (hd : d.Counted)
    (h : d.checkCount limits k = .error cause) : Fault.IsJust limits ts d ⟨cause, offset⟩ := by
  unfold checkCount at h
  split at h
  · split at h
    · cases h
      exact ⟨rfl, hd.temporaries ▸ ‹_›⟩
    · cases h
  · split at h
    · cases h
      exact ⟨rfl, hd.addresses ▸ ‹_›⟩
    · cases h
  · cases h

theorem isJust_of_declare {name : String} {k : VariableKind} {offset place : Nat} {cause : Cause}
    (hd : d.Counted) (h : d.declare limits name k offset = .error cause) :
    Fault.IsJust limits ts d ⟨cause, place⟩ := by
  unfold declare at h
  cases hname : d.checkName name with
  | error c =>
    rw [hname] at h
    cases h
    exact Fault.isJust_of_isPlain (isPlain_of_checkName hname)
  | ok u =>
    cases hcount : d.checkCount limits k with
    | error c =>
      rw [hname, hcount] at h
      cases h
      exact isJust_of_checkCount hd hcount
    | ok u' =>
      rw [hname, hcount] at h
      cases h

theorem isPlain_of_nameAlso {name : String} {i : Nat} {cause : Cause}
    (h : d.nameAlso name i = .error cause) : cause.isPlain = true := by
  unfold nameAlso at h
  cases hname : d.checkName name with
  | error c =>
    rw [hname] at h
    cases h
    exact isPlain_of_checkName hname
  | ok u =>
    rw [hname] at h
    cases h

theorem isPlain_of_write {k : VariableKind} {cause : Cause} (h : d.write k = .error cause) :
    cause.isPlain = true := by
  unfold write at h
  split at h
  · split at h <;> cases h
    rfl
  all_goals cases h

theorem isPlain_of_sample {t : TextureOperand} {cause : Cause} (h : d.sample t = .error cause) :
    cause.isPlain = true := by
  unfold sample at h
  dsimp only at h
  split at h
  · cases h
  · split at h <;> cases h
    rfl

theorem isPlain_of_setOption {name : String} {cause : Cause}
    (h : d.setOption kind name = .error cause) : cause.isPlain = true := by
  unfold setOption at h
  dsimp only at h
  split at h
  case h_1 => cases h
  case h_7 =>
    cases h
    rfl
  all_goals
    split at h <;> cases h
    rfl

end Draft

/-! ## Scanned bindings -/

namespace Scan

variable {α β : Type} {kind : ProgramKind} {limits : Limits} {ts : List Token}

/-- The value of a scan has `Q` if the scan starts from `c`. -/
def GivesAt (c : Cursor) (scan : Scan α) (Q : α → Prop) : Prop := ∀ a d, scan c = .ok a d → Q a

theorem Gives.at {scan : Scan α} {Q : α → Prop} (h : Gives scan Q) (c : Cursor) :
    GivesAt c scan Q := h c

theorem GivesAt.bind {c : Cursor} {scan : Scan α} {f : α → Scan β} {Q : β → Prop}
    (hf : ∀ a d, scan c = .ok a d → GivesAt d (f a) Q) : GivesAt c (scan >>= f) Q := by
  intro b d e
  obtain ⟨a, c₁, e₁, e₂⟩ := bind_eq_ok.1 e
  exact hf a c₁ e₁ b d e₂

theorem texCoord_gives (name : Token) :
    Gives (texCoord limits name) fun n => n < limits.maxTextureCoords :=
  .skip fun _ => (below_gives _ _ _).bind fun _ h => .of_pure h

/-- The number of a texture coordinate set as a vertex attribute. -/
theorem coordSet_of_ofGenericAttribute {m n : Nat}
    (h : InputBinding.ofGenericAttribute? m = some (.vertexTexCoord n)) : n < 8 ∧ m = n + 8 := by
  unfold InputBinding.ofGenericAttribute? at h
  repeat' split at h
  all_goals cases h
  omega

/-- **The coordinate set of an attribute is below its limit or spelled as a number.** -/
theorem inputBinding_givesAt {c : Cursor} (hc : c.rest <:+ ts) (root : Token) :
    GivesAt c (inputBinding kind limits root) fun b => (VariableKind.input b).SpelledIn limits ts := by
  unfold inputBinding
  split
  · exact Gives.refuse_bind.at c
  refine .bind fun _ c₁ e₁ => .bind fun name c₂ e₂ => ?_
  obtain ⟨h₁, hpoint⟩ := rest_of_expect (by decide) e₁
  have h₂ := rest_of_word e₂
  split
  case h_6 =>
    rename_i hname _
    refine .bind fun n c₃ e₃ => ?_
    obtain ⟨left, number, right, h₃, hleft, hnumber, -⟩ := rest_of_index e₃
    split
    · rename_i b hb
      refine (Gives.of_pure ?_).at c₃
      cases b with
      | vertexTexCoord m =>
        obtain ⟨hm, hn⟩ := coordSet_of_ofGenericAttribute hb
        refine .inr ⟨hm, Token.SpellsAttribute.mono hc.isInfix ?_⟩
        refine ⟨c₁.current, name, left, number, ⟨[], right :: c₃.rest, ?_⟩, hpoint, hname, hleft, ?_⟩
        · rw [h₁, h₂.1, h₃]
          rfl
        · rw [hnumber, hn]
      | fragmentTexCoord m => cases kind_ofGenericAttribute hb
      | _ => trivial
    · exact Gives.of_refuse.at c₃
  case h_5 => exact ((texCoord_gives name).bind fun _ h => .of_pure (.inl h)).at c₂
  case h_10 => exact ((texCoord_gives name).bind fun _ h => .of_pure h).at c₂
  case h_4 | h_9 => exact (Gives.skip fun _ => .of_pure trivial).at c₂
  case h_11 => exact Gives.of_refuse.at c₂
  all_goals exact (Gives.of_pure trivial).at c₂

theorem outputBinding_spelledIn :
    Gives (outputBinding kind limits) fun b => (VariableKind.output b).SpelledIn limits ts := by
  unfold outputBinding
  refine .skip fun _ => .skip fun name => ?_
  split
  case h_4 => exact (texCoord_gives name).bind fun _ h => .of_pure h
  case h_5 => exact .skip fun _ => .skip fun _ => .of_pure trivial
  case h_8 => exact .of_refuse
  all_goals exact .of_pure trivial

theorem bankBinding_isBinding (root : Token) (multiple : Bool) :
    Gives (bankBinding limits root multiple) fun items =>
      ∀ b ∈ items, (VariableKind.param b).isBinding = true := by
  have places_isBinding (place : Nat → ParamBinding) (bank : Token) (limit : Nat)
      (h : ∀ n, (VariableKind.param (place n)).isBinding = true) :
      Gives (do
        let places ← range
        if !multiple && places.value.1 != places.value.2 then
          refuse .bankRangeOutsideArray root.offset
        if limit ≤ places.value.2 then
          refuse (.bankLimit bank.text places.value.2 limit) places.offset
        return (span places.value.1 places.value.2).map place) fun items =>
          ∀ b ∈ items, (VariableKind.param b).isBinding = true := by
    refine .skip fun places => .guard fun _ => .guard fun _ => .of_pure ?_
    intro b hb
    obtain ⟨n, -, rfl⟩ := List.mem_map.1 hb
    exact h n
  refine .skip fun _ => .skip fun bank => ?_
  dsimp only
  split
  · exact places_isBinding _ bank _ fun _ => rfl
  · exact places_isBinding _ bank _ fun _ => rfl
  · exact .unexpected_bind

theorem singleParam_isBinding {first : Token} (hfirst : first.kind = .identifier) :
    Gives (singleParam limits first) fun b => (VariableKind.param b).isBinding = true := by
  have item : Gives (paramItem limits first false) fun items =>
      ∀ b ∈ items, (VariableKind.param b).isBinding = true := by
    unfold paramItem
    simp only [hfirst]
    split
    · refine .skip fun items => .guard fun _ => .of_pure ?_
      intro b hb
      obtain ⟨s, -, rfl⟩ := List.mem_map.1 hb
      rfl
    · exact bankBinding_isBinding first false
    · exact .of_unexpected
  refine item.bind fun items h => ?_
  split
  · exact .of_pure (h _ List.mem_cons_self)
  · exact .of_refuse

end Scan

end ShaderAssembly
