import ShaderAssembly.Proofs.Framing.Declared
/-!
# Names of variables

Declarations, second names and operands all add to one list of variables, and each checks names at a
time of its own. Whatever they do, in whatever order, names and variables fit together.

* `Opcode.saturated`: a mnemonic with any number of `_SAT` behind it, which names no variable;
* `Draft.secondNames`: the names that variables have besides their own;
* **`Draft.WellNamed`**: every name stands for one declared variable, and every declared variable for
  its name; implicit variables have no name, and no two of them stand for one binding;
* `Draft.WellNamed.names_perm`, `Draft.WellNamed.nodup_names`: own and second names are all names,
  and no two of them are equal;
* `Draft.Edit.wellNamed`: every edit keeps names and variables together;
* **`ProgramReader.wellNamed_of_reachable`**: they fit together in every state of a reader.
-/

namespace ShaderAssembly

/-! ## Reserved names -/

/-- A mnemonic with `n` times `_SAT` behind it. -/
def Opcode.saturated (op : Opcode) (n : Nat) : String :=
  op.mnemonic ++ String.join (List.replicate n "_SAT")

theorem dropSaturations_mnemonic (op : Opcode) :
    dropSaturations op.mnemonic.toList.reverse = op.mnemonic.toList.reverse := by
  cases op <;> decide

theorem dropSaturations_saturated (op : Opcode) (n : Nat) :
    dropSaturations (op.saturated n).toList.reverse = op.mnemonic.toList.reverse := by
  induction n with
  | zero => simpa [Opcode.saturated] using dropSaturations_mnemonic op
  | succ n ih =>
    have hlast : (op.saturated (n + 1)).toList = (op.saturated n).toList ++ "_SAT".toList := by
      simp [Opcode.saturated, List.replicate_succ']
    rw [hlast, List.reverse_append]
    exact ih

/-- A mnemonic names no variable, however often it is saturated. -/
theorem isReserved_saturated (op : Opcode) (n : Nat) : isReserved (op.saturated n) = true := by
  have hmnemonic : (Opcode.ofMnemonic? op.mnemonic).isSome = true := by
    cases op <;> decide
  rw [isReserved, dropSaturations_saturated, List.reverse_reverse, String.ofList_toList, hmnemonic,
    Bool.or_true]

theorem notReserved_of_isReserved {name : String} (h : isReserved name = false) :
    name ∉ reservedWords ∧ ∀ op n, name ≠ Opcode.saturated op n := by
  refine ⟨fun hmem => ?_, ?_⟩
  · rw [isReserved, List.contains_iff_mem.2 hmem, Bool.true_or] at h
    cases h
  · rintro op n rfl
    rw [isReserved_saturated] at h
    cases h

/-! ## Names and variables -/

namespace Draft

/-- The names that stand for variables of other names, the last one first. -/
def secondNames (d : Draft) : List String :=
  (d.symbols.filter fun (name, i) => (d.vars[i]?.map (·.name)) != some name).map (·.1)

/-- A draft in which names and variables fit together. -/
structure WellNamed (d : Draft) : Prop where
  /-- A name stands for a variable that has been declared. -/
  lookup : ∀ name i, d.symbols.lookup name = some i → ∃ v, d.vars[i]? = some v ∧ v.implicit = false
  /-- A variable that has been declared is what its name stands for. -/
  own : ∀ i v, d.vars[i]? = some v → v.implicit = false → d.symbols.lookup v.name = some i
  /-- No name is given twice. -/
  nodup : (d.symbols.map (·.1)).Nodup
  /-- No name is reserved. -/
  free : ∀ name ∈ d.symbols.map (·.1), isReserved name = false
  /-- An implicit variable stands for a binding. -/
  bindings : ∀ v ∈ d.vars, v.implicit = true → v.kind.isBinding = true
  /-- No two implicit variables stand for the same binding. -/
  apart : d.vars.Pairwise fun v w => v.implicit = true → w.implicit = true → v.kind ≠ w.kind

variable {kind : ProgramKind} {limits : Limits} {ts : List Token} {d d' : Draft}

theorem wellNamed_empty : WellNamed {} where
  lookup _ _ h := nomatch h
  own _ _ h := nomatch h
  nodup := .nil
  free _ h := nomatch h
  bindings _ h := nomatch h
  apart := .nil

theorem getElem?_concat_eq_some {vs : List Variable} {v w : Variable} {i : Nat} :
    (vs ++ [v])[i]? = some w ↔ vs[i]? = some w ∨ i = vs.length ∧ v = w := by
  rw [List.getElem?_append]
  split
  · rename_i hi
    exact ⟨.inl, fun h => h.elim id fun ⟨h, _⟩ => absurd hi (by omega)⟩
  · rename_i hi
    rw [List.getElem?_singleton, List.getElem?_eq_none (by omega)]
    split
    · have : i = vs.length := by omega
      simp [this]
    · have : i ≠ vs.length := by omega
      simp [this]

theorem notMem_of_lookup {symbols : List (String × Nat)} {name : String}
    (h : symbols.lookup name = none) : name ∉ symbols.map (·.1) := by
  intro hmem
  obtain ⟨entry, hentry, rfl⟩ := List.mem_map.1 hmem
  have hne := List.lookup_eq_none_iff.1 h entry hentry
  simp at hne

theorem lookup_eq_some_iff_mem {symbols : List (String × Nat)} {name : String} {i : Nat}
    (h : (symbols.map (·.1)).Nodup) : symbols.lookup name = some i ↔ (name, i) ∈ symbols := by
  induction symbols with
  | nil => simp
  | cons entry symbols ih =>
    obtain ⟨hentry, h⟩ := List.nodup_cons.1 h
    rw [List.lookup_cons, List.mem_cons]
    split
    · rename_i he
      obtain rfl : name = entry.1 := by simpa using he
      have hmem : (entry.1, i) ∉ symbols := fun hmem => hentry (List.mem_map.2 ⟨_, hmem, rfl⟩)
      simp [hmem, Prod.ext_iff, eq_comm]
    · rename_i he
      have hne : name ≠ entry.1 := by simpa using he
      simp [ih h, Prod.ext_iff, hne]

theorem lookup_cons_eq_some {symbols : List (String × Nat)} {name other : String} {i j : Nat}
    (h : ((name, i) :: symbols).lookup other = some j) :
    (other = name ∧ j = i) ∨ symbols.lookup other = some j := by
  rw [List.lookup_cons] at h
  split at h
  · rename_i he
    exact .inl ⟨by simpa using he, (Option.some.inj h).symm⟩
  · exact .inr h

theorem ne_of_implied? {k : VariableKind} (h : d.implied? k = none) :
    ∀ v ∈ d.vars, v.implicit = true → v.kind ≠ k := by
  intro v hv himplicit hkind
  have hnot := List.findIdx?_eq_none_iff.1 h v hv
  simp [himplicit, hkind] at hnot

namespace WellNamed

/-- What leaves names and variables alone keeps them together. -/
theorem of_same (hd : d.WellNamed) (hvars : d'.vars = d.vars) (hsymbols : d'.symbols = d.symbols) :
    d'.WellNamed where
  lookup := by
    rw [hvars, hsymbols]
    exact hd.lookup
  own := by
    rw [hvars, hsymbols]
    exact hd.own
  nodup := hsymbols ▸ hd.nodup
  free := hsymbols ▸ hd.free
  bindings := hvars ▸ hd.bindings
  apart := hvars ▸ hd.apart

theorem imply (hd : d.WellNamed) {k : VariableKind} (text : String) (offset : Nat)
    (hnew : d.implied? k = none) (hbinding : k.isBinding = true) :
    (d.imply text k offset).WellNamed where
  lookup name i h := by
    obtain ⟨v, hv, hdeclared⟩ := hd.lookup name i h
    exact ⟨v, getElem?_concat_eq_some.2 (.inl hv), hdeclared⟩
  own i v hv hdeclared := by
    rcases getElem?_concat_eq_some.1 hv with hv | ⟨rfl, rfl⟩
    · exact hd.own i v hv hdeclared
    · cases hdeclared
  nodup := hd.nodup
  free := hd.free
  bindings := List.forall_mem_append.2 ⟨hd.bindings, List.forall_mem_singleton.2 fun _ => hbinding⟩
  apart := by
    refine List.pairwise_append.2 ⟨hd.apart, List.pairwise_singleton _ _, fun v hv w hw => ?_⟩
    obtain rfl := List.mem_singleton.1 hw
    exact fun himplicit _ => ne_of_implied? hnew v hv himplicit

theorem nameAlso (hd : d.WellNamed) {name : String} {i : Nat} (hname : d.checkName name = .ok ())
    (hi : ∃ v, d.vars[i]? = some v ∧ v.implicit = false) :
    WellNamed { d with symbols := (name, i) :: d.symbols } where
  lookup other j h := by
    rcases lookup_cons_eq_some h with ⟨rfl, rfl⟩ | h
    · exact hi
    · exact hd.lookup other j h
  own j v hv hdeclared := lookup_cons_of_new (checkName_eq_ok hname) _ _ _ (hd.own j v hv hdeclared)
  nodup := List.nodup_cons.2 ⟨notMem_of_lookup (checkName_eq_ok hname), hd.nodup⟩
  free := List.forall_mem_cons.2 ⟨notReserved_of_checkName hname, hd.free⟩
  bindings := hd.bindings
  apart := hd.apart

theorem declare (hd : d.WellNamed) {name : String} {k : VariableKind} {offset : Nat}
    (h : d.declare limits name k offset = .ok d') : d'.WellNamed := by
  obtain ⟨hname, -, rfl⟩ := declare_eq_ok h
  refine { lookup := ?_, own := ?_, nodup := ?_, free := ?_, bindings := ?_, apart := ?_ }
  · intro other j h
    rcases lookup_cons_eq_some h with ⟨rfl, rfl⟩ | h
    · exact ⟨_, getElem?_concat_eq_some.2 (.inr ⟨rfl, rfl⟩), rfl⟩
    · obtain ⟨v, hv, hdeclared⟩ := hd.lookup other j h
      exact ⟨v, getElem?_concat_eq_some.2 (.inl hv), hdeclared⟩
  · intro j v hv hdeclared
    rcases getElem?_concat_eq_some.1 hv with hv | ⟨rfl, rfl⟩
    · exact lookup_cons_of_new (checkName_eq_ok hname) _ _ _ (hd.own j v hv hdeclared)
    · exact List.lookup_cons_self
  · exact List.nodup_cons.2 ⟨notMem_of_lookup (checkName_eq_ok hname), hd.nodup⟩
  · exact List.forall_mem_cons.2 ⟨notReserved_of_checkName hname, hd.free⟩
  · exact List.forall_mem_append.2 ⟨hd.bindings, List.forall_mem_singleton.2 nofun⟩
  · refine List.pairwise_append.2 ⟨hd.apart, List.pairwise_singleton _ _, fun v hv w hw => ?_⟩
    obtain rfl := List.mem_singleton.1 hw
    exact fun _ himplicit => nomatch himplicit

/-! ## Own names and second names -/

theorem nodup_declaredNames (hd : d.WellNamed) : (declaredNames d.vars).Nodup := by
  rw [declaredNames, List.nodup_iff_pairwise_ne, List.pairwise_map, List.pairwise_filter,
    List.pairwise_iff_getElem]
  intro i j hi hj hij hv hw hsame
  have hown (k : Nat) (hk : k < d.vars.length) (hdeclared : (!d.vars[k].implicit) = true) :=
    hd.own k _ (List.getElem?_eq_getElem hk) (by simpa using hdeclared)
  have hi' := hown i hi hv
  rw [hsame, hown j hj hw] at hi'
  exact Nat.ne_of_gt hij (Option.some.inj hi')

theorem mem_declaredNames_iff (hd : d.WellNamed) {name : String} : name ∈ declaredNames d.vars ↔
    ∃ i, (name, i) ∈ d.symbols ∧ d.vars[i]?.map (·.name) = some name := by
  simp only [declaredNames, List.mem_map, List.mem_filter]
  constructor
  · rintro ⟨v, ⟨hv, hdeclared⟩, rfl⟩
    obtain ⟨i, hi⟩ := List.mem_iff_getElem?.1 hv
    have hown := hd.own i v hi (by simpa using hdeclared)
    exact ⟨i, (lookup_eq_some_iff_mem hd.nodup).1 hown, by rw [hi, Option.map_some]⟩
  · rintro ⟨i, hmem, hname⟩
    obtain ⟨v, hv, hdeclared⟩ := hd.lookup name i ((lookup_eq_some_iff_mem hd.nodup).2 hmem)
    rw [hv, Option.map_some, Option.some.injEq] at hname
    exact ⟨v, ⟨List.mem_of_getElem? hv, by simp [hdeclared]⟩, hname⟩

/-- **Own and second names are all names.** -/
theorem names_perm (hd : d.WellNamed) :
    (d.symbols.map (·.1)).Perm (declaredNames d.vars ++ d.secondNames) := by
  let isSecond (entry : String × Nat) : Bool := (d.vars[entry.2]?.map (·.name)) != some entry.1
  have hsplit : (d.symbols.map (·.1)).Perm
      ((d.symbols.filter (!isSecond ·)).map (·.1) ++ d.secondNames) := by
    rw [secondNames, ← List.map_append]
    exact ((List.perm_append_comm.trans (List.filter_append_perm isSecond d.symbols)).map _).symm
  have hown : ((d.symbols.filter (!isSecond ·)).map (·.1)).Perm (declaredNames d.vars) := by
    refine (List.perm_ext_iff_of_nodup ?_ hd.nodup_declaredNames).2 fun name => ?_
    · exact hd.nodup.sublist (List.filter_sublist.map _)
    · rw [hd.mem_declaredNames_iff]
      simp [isSecond]
  exact hsplit.trans (hown.append_right _)

theorem eq_of_kind (hd : d.WellNamed) {i j : Nat} {v w : Variable} (hv : d.vars[i]? = some v)
    (hw : d.vars[j]? = some w) (himplicit : v.implicit = true) (himplicit' : w.implicit = true)
    (hkind : v.kind = w.kind) : i = j := by
  obtain ⟨hi, rfl⟩ := List.getElem?_eq_some_iff.1 hv
  obtain ⟨hj, rfl⟩ := List.getElem?_eq_some_iff.1 hw
  have hapart := List.pairwise_iff_getElem.1 hd.apart
  by_contra hne
  obtain hlt | hlt := Nat.lt_or_gt_of_ne hne
  · exact hapart i j hi hj hlt himplicit himplicit' hkind
  · exact hapart j i hj hi hlt himplicit' himplicit hkind.symm

/-- **No two names are equal**, own or second. -/
theorem nodup_names (hd : d.WellNamed) : (declaredNames d.vars ++ d.secondNames).Nodup :=
  hd.names_perm.nodup_iff.1 hd.nodup

end WellNamed

/-- **Every edit keeps names and variables together.** -/
theorem Edit.wellNamed (h : Edit kind limits ts d d') (hd : d.WellNamed) : d'.WellNamed := by
  cases h with
  | note hnote =>
    cases hnote with
    | imply text offset hnew hbinding _ => exact hd.imply text offset hnew hbinding
    | write h =>
      have hd' := (afterWrite_of_write h).1
      exact hd.of_same (by rw [hd']) (by rw [hd'])
    | sample _ h =>
      have hd' := (samplers_of_sample h).1
      exact hd.of_same (by rw [hd']) (by rw [hd'])
  | declare _ _ _ h => exact hd.declare h
  | nameAlso _ _ hlookup h =>
    obtain ⟨hname, rfl⟩ := nameAlso_eq_ok h
    exact hd.nameAlso hname (hd.lookup _ _ (lookup?_eq_some.1 hlookup).1)
  | option h =>
    have hd' := setOption_eq_ok h
    exact hd.of_same (by rw [hd']) (by rw [hd'])
  | push => exact hd.of_same rfl rfl

theorem WellNamed.edits (h : Relation.ReflTransGen (Edit kind limits ts) d d') (hd : d.WellNamed) :
    d'.WellNamed := by
  induction h with
  | refl => exact hd
  | tail _ hedit ih => exact hedit.wellNamed ih

end Draft

theorem Draft.WellNamed.secondNames_nameAlso {d : Draft} (hd : d.WellNamed) {name : String} {i : Nat}
    (hname : d.checkName name = .ok ()) (hi : ∃ other, d.symbols.lookup other = some i) :
    secondNames { d with symbols := (name, i) :: d.symbols } = name :: d.secondNames := by
  obtain ⟨other, hother⟩ := hi
  obtain ⟨v, hv, hdeclared⟩ := hd.lookup other i hother
  have hne : v.name ≠ name := by
    rintro rfl
    have hown := hd.own i v hv hdeclared
    rw [checkName_eq_ok hname] at hown
    cases hown
  rw [secondNames, List.filter_cons_of_pos (by simp [hv, hne])]
  rfl

/-- An accepted `ALIAS` gives the second name that stands behind it. -/
theorem Parse.secondName_adds {p q : Progress} {u : Unit} (hd : p.draft.WellNamed)
    (e : secondName p = .ok u q) :
    ∃ name ∈ p.cursor.rest.head?, q.draft.secondNames = name.text :: p.draft.secondNames := by
  unfold secondName at e
  obtain ⟨name, p₁, e₁, e⟩ := bind_eq_ok.1 e
  obtain ⟨c₁, hword, rfl⟩ := lift_eq_ok.1 e₁
  obtain ⟨_, p₂, e₂, e⟩ := bind_eq_ok.1 e
  obtain ⟨c₂, -, rfl⟩ := lift_eq_ok.1 e₂
  obtain ⟨target, p₃, e₃, e⟩ := bind_eq_ok.1 e
  obtain ⟨c₃, -, rfl⟩ := lift_eq_ok.1 e₃
  obtain ⟨⟨i, v⟩, p₄, e₄, e⟩ := bind_eq_ok.1 e
  obtain ⟨hlookup, rfl⟩ := resolve_eq_ok.1 e₄
  obtain ⟨_, p₅, e₅, e⟩ := bind_eq_ok.1 e
  obtain ⟨c₅, -, rfl⟩ := lift_eq_ok.1 e₅
  refine ⟨name, by rw [(Scan.rest_of_word hword).1]; rfl, ?_⟩
  rw [edit_eq] at e
  split at e
  · rename_i d hname
    cases e
    obtain ⟨hcheck, rfl⟩ := Draft.nameAlso_eq_ok hname
    exact hd.secondNames_nameAlso hcheck ⟨_, (Draft.lookup?_eq_some.1 hlookup).1⟩
  · cases e

namespace ProgramReader

variable {kind : ProgramKind} {limits : Limits} {r : ProgramReader}

/-- **In every state of a reader names and variables fit together.** -/
theorem wellNamed_of_reachable (h : Reachable kind limits r) : r.progress.draft.WellNamed := by
  obtain ⟨source, start, h⟩ := editedOver_of_reachable h
  exact Draft.wellNamed_empty.edits h.edits

theorem secondNames_step (h : Reachable kind limits r) (hword : r.current.text = "ALIAS")
    (hstep : (r.step kind limits).status = .running) :
    ∃ name ∈ r.progress.cursor.rest.head?,
      (r.step kind limits).progress.draft.secondNames = name.text :: r.progress.draft.secondNames := by
  obtain ⟨-, q, e, hq⟩ := statement_of_running hstep
  obtain ⟨-, -, e⟩ := Parse.statementHere_eq_ok kind limits e
  have hopened : Parse.openedBy kind limits r.progress.cursor.current = Parse.secondName := by
    unfold Parse.openedBy
    change r.progress.cursor.current.text = _ at hword
    simp only [hword]
  rw [hopened] at e
  rw [hq]
  exact Parse.secondName_adds (wellNamed_of_reachable h) e

end ProgramReader

end ShaderAssembly
