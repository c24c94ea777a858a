import ShaderAssembly.Proofs.Editing.Run
/-!
# What a statement adds

An accepted statement adds the names that its tokens declare, or an instruction if its first word
names one, and nothing else but implicit variables.

* `Token.heading?`, `Token.declaringWords`: what the tokens of a statement announce;
* `Instruction.heading`, `declaredPlaces`: what a draft has of that;
* `Parse.Declares`, `Parse.DeclaresNext`: steps that declare one name;
* **`Parse.Accepts.headings`**, **`Parse.Accepts.declared`**: an accepted statement adds what it
  announces.
-/

namespace ShaderAssembly

variable {kind : ProgramKind} {limits : Limits}

/-! ## Announcements -/

/-- The opcode of a statement, whether its result is clamped, and where it stands, if the first word
of the statement names an instruction. -/
def Token.heading? (kind : ProgramKind) : List Token → Option (Opcode × Bool × Nat)
  | [] => none
  | word :: _ =>
    (Instruction.ofWord? kind word.text).map fun (opcode, saturate) => (opcode, saturate, word.offset)

/-- The words by which a statement declares names: all words of a list of registers, or the first word
behind `ATTRIB`, `PARAM` or `OUTPUT`. -/
def Token.declaringWords : List Token → List Token
  | [] => []
  | word :: run =>
    if word.text ∈ ["TEMP", "ADDRESS"] then run.filter (·.kind == .identifier)
    else if word.text ∈ ["ATTRIB", "PARAM", "OUTPUT"] then run.head?.toList
    else []

theorem Token.declaringWords_subset (s : List Token) : declaringWords s ⊆ s := by
  cases s with
  | nil => exact List.nil_subset _
  | cons word run =>
    refine List.Subset.trans ?_ (List.subset_cons_self word run)
    rw [declaringWords]
    split
    · exact List.filter_sublist.subset
    split
    · cases run <;> simp
    · exact List.nil_subset _

/-- The names that a statement declares. -/
def Token.declaredNames (s : List Token) : List String := (declaringWords s).map (·.text)

/-- The text of a token and where it stands. -/
def Token.place (t : Token) : String × Nat := (t.text, t.offset)

/-- The opcode of an instruction, whether its result is clamped, and where it stands. -/
def Instruction.heading (i : Instruction) : Opcode × Bool × Nat := (i.opcode, i.saturate, i.offset)

/-- The names of the variables that have been declared, in order. -/
def declaredNames (vars : List Variable) : List String :=
  (vars.filter (!·.implicit)).map (·.name)

/-- The variables that have been declared, in order: their names and where they stand. -/
def declaredPlaces (vars : List Variable) : List (String × Nat) :=
  (vars.filter (!·.implicit)).map fun v => (v.name, v.offset)

theorem declaredNames_eq (vars : List Variable) :
    declaredNames vars = (declaredPlaces vars).map (·.1) := by
  rw [declaredPlaces, List.map_map]
  rfl

theorem declaredPlaces_append (vs ws : List Variable) :
    declaredPlaces (vs ++ ws) = declaredPlaces vs ++ declaredPlaces ws := by
  simp [declaredPlaces]

theorem declaredPlaces_of_implicit {vs : List Variable} (h : ∀ v ∈ vs, v.implicit = true) :
    declaredPlaces vs = [] := by
  rw [declaredPlaces, List.filter_eq_nil_iff.2 fun v hv => by simp [h v hv], List.map_nil]

theorem Draft.declaredPlaces_of_declare {d d' : Draft} {name : String} {k : VariableKind}
    {offset : Nat} (h : d.declare limits name k offset = .ok d') :
    declaredPlaces d'.vars = declaredPlaces d.vars ++ [(name, offset)] := by
  rw [(declare_eq_ok h).2.2, declaredPlaces_append]
  rfl

namespace Parse

variable {α : Type}

/-! ## Declarations of one name -/

/-- A step that declares the given name, and nothing else. -/
class Declares (name : Token) (step : Parse Unit) : Prop where
  declares {p q : Progress} {u : Unit} : step p = .ok u q →
    declaredPlaces q.draft.vars = declaredPlaces p.draft.vars ++ [name.place]

instance (name : Token) (k : VariableKind) (blamed : Nat) :
    Declares name (edit (·.declare limits name.text k name.offset) blamed) where
  declares {p q u} e := by
    rw [edit_eq] at e
    split at e
    · rename_i h
      cases e
      exact Draft.declaredPlaces_of_declare h
    · cases e

instance (name : Token) (scan : Scan α) (f : α → Parse Unit) [h : ∀ a, Declares name (f a)] :
    Declares name (liftM scan >>= f) where
  declares e := by
    obtain ⟨a, p₁, e₁, e₂⟩ := bind_eq_ok.1 e
    obtain ⟨c, -, rfl⟩ := lift_eq_ok.1 e₁
    have hdeclares := (h a).declares e₂
    exact hdeclares

/-- A scan before a declaration, where the cases of what follows are still to be told apart. -/
theorem Declares.andThen {name : Token} {scan : Scan α} {f : α → Parse Unit}
    (h : ∀ a, Declares name (f a)) : Declares name (liftM scan >>= f) := inferInstance

instance (name : Token) (cause : Cause) (offset : Nat) (f : α → Parse Unit) :
    Declares name (refuse cause offset >>= f) where
  declares e := nomatch e

instance (name found : Token) (wanted : String) (f : α → Parse Unit) :
    Declares name (liftM (Scan.unexpected wanted found : Scan α) >>= f) where
  declares e := nomatch e

instance (name : Token) (p : Prop) [Decidable p] (step step' : Parse Unit) [Declares name step]
    [Declares name step'] : Declares name (if p then step else step') := by
  split <;> assumption

/-- A step that declares the word that comes next, and nothing else. -/
class DeclaresNext (step : Parse Unit) : Prop where
  declares {p q : Progress} {u : Unit} : step p = .ok u q →
    ∃ name ts, p.cursor.rest = name :: ts ∧ name.kind = .identifier ∧
      declaredPlaces q.draft.vars = declaredPlaces p.draft.vars ++ [name.place]

theorem DeclaresNext.of_word {wanted : String} {f : Token → Parse Unit}
    (h : ∀ name, Declares name (f name)) : DeclaresNext (liftM (Scan.word wanted) >>= f) where
  declares e := by
    obtain ⟨name, p₁, e₁, e₂⟩ := bind_eq_ok.1 e
    obtain ⟨c, hword, rfl⟩ := lift_eq_ok.1 e₁
    obtain ⟨hrest, hkind⟩ := Scan.rest_of_word hword
    have hdeclares := (h name).declares e₂
    exact ⟨name, c.rest, hrest, hkind, hdeclares⟩

variable (kind limits)

instance : DeclaresNext (attrib kind limits) := by
  unfold attrib
  dsimp only
  exact .of_word fun _ => inferInstance

instance : DeclaresNext (output kind limits) := by
  unfold output
  dsimp only
  exact .of_word fun _ => inferInstance

instance (name : Token) : Declares name (paramArray limits name) := by
  unfold paramArray
  dsimp only
  refine .andThen fun size => .andThen fun _ => .andThen fun _ => .andThen fun items => .andThen fun _ => ?_
  split <;> infer_instance

instance : DeclaresNext (param limits) := by
  unfold param
  exact .of_word fun _ => inferInstance

/-! ## Lists of registers -/

variable {kind limits}

/-- A round declares its word, and stands on the token behind it. -/
theorem registerRound_declares {k : VariableKind} {p q : Progress} {t : Token}
    (e : registerRound limits k p = .ok t q) (ht : t.kind ≠ .endOfText) :
    ∃ name, p.cursor.rest = name :: t :: q.cursor.rest ∧ name.kind = .identifier ∧
      q.cursor.current = t ∧
      declaredPlaces q.draft.vars = declaredPlaces p.draft.vars ++ [name.place] := by
  obtain ⟨name, p₁, e₁, e⟩ := bind_eq_ok.1 e
  obtain ⟨c₁, hword, rfl⟩ := lift_eq_ok.1 e₁
  obtain ⟨_, p₂, e₂, e⟩ := bind_eq_ok.1 e
  obtain ⟨c₂, hnext, rfl⟩ := lift_eq_ok.1 e
  have hdeclares := (inferInstance : Declares name _).declares e₂
  obtain ⟨hrest, hkind⟩ := Scan.rest_of_word hword
  have hcursor : p₂.cursor = c₁ := StandsStill.cursor_eq e₂
  have hrest₂ := Scan.rest_of_next hnext ht
  cases hnext
  rw [hcursor] at hrest₂
  exact ⟨name, by rw [hrest, hrest₂, hcursor], hkind, rfl, hdeclares⟩

theorem registersWithin_declares {k : VariableKind} {bound : Nat} {p q : Progress} {u : Unit}
    (e : registersWithin limits k bound p = .ok u q) :
    ∃ run, p.cursor.rest = run ++ q.cursor.current :: q.cursor.rest ∧
      declaredPlaces q.draft.vars = declaredPlaces p.draft.vars ++
        (run.filter (·.kind == .identifier)).map Token.place := by
  induction bound generalizing p with
  | zero =>
    obtain ⟨t, p₁, -, e⟩ := bind_eq_ok.1 e
    cases e
  | succ bound ih =>
    rw [registersWithin_succ] at e
    obtain ⟨t, p₁, e₁, e⟩ := bind_eq_ok.1 e
    cases ht : t.kind with
    | comma =>
      simp only [ht] at e
      obtain ⟨name, hrest, hname, -, hdeclares⟩ := registerRound_declares e₁ (by simp [ht])
      obtain ⟨run, hrun, hnames⟩ := ih e
      refine ⟨name :: t :: run, by rw [hrest, hrun]; rfl, ?_⟩
      rw [hnames, hdeclares]
      simp [hname, ht]
    | semicolon =>
      simp only [ht] at e
      obtain ⟨name, hrest, hname, hcurrent, hdeclares⟩ := registerRound_declares e₁ (by simp [ht])
      cases e
      exact ⟨[name], by rw [hrest, hcurrent]; rfl, by rw [hdeclares]; simp [hname]⟩
    | _ =>
      simp only [ht] at e
      cases e

/-! ## Other statements -/

theorem option_vars {start : Token} {p q : Progress} {u : Unit} (e : option kind start p = .ok u q) :
    q.draft.vars = p.draft.vars ∧ q.draft.instructions = p.draft.instructions := by
  unfold option at e
  obtain ⟨d, p₁, e₁, e⟩ := bind_eq_ok.1 e
  cases e₁
  dsimp only at e
  split at e
  · cases e
  obtain ⟨name, p₁, e₁, e⟩ := bind_eq_ok.1 e
  obtain ⟨c, -, rfl⟩ := lift_eq_ok.1 e₁
  obtain ⟨_, p₂, e₂, e⟩ := bind_eq_ok.1 e
  obtain ⟨c', -, rfl⟩ := lift_eq_ok.1 e
  rw [edit_eq] at e₂
  split at e₂
  · rename_i d hset
    cases e₂
    rw [Draft.setOption_eq_ok hset]
    exact ⟨rfl, rfl⟩
  · cases e₂

theorem secondName_vars {p q : Progress} {u : Unit} (e : secondName p = .ok u q) :
    q.draft.vars = p.draft.vars := by
  unfold secondName at e
  obtain ⟨name, p₁, e₁, e⟩ := bind_eq_ok.1 e
  obtain ⟨c₁, -, rfl⟩ := lift_eq_ok.1 e₁
  obtain ⟨_, p₂, e₂, e⟩ := bind_eq_ok.1 e
  obtain ⟨c₂, -, rfl⟩ := lift_eq_ok.1 e₂
  obtain ⟨target, p₃, e₃, e⟩ := bind_eq_ok.1 e
  obtain ⟨c₃, -, rfl⟩ := lift_eq_ok.1 e₃
  obtain ⟨⟨i, v⟩, p₄, e₄, e⟩ := bind_eq_ok.1 e
  obtain ⟨-, rfl⟩ := resolve_eq_ok.1 e₄
  obtain ⟨_, p₅, e₅, e⟩ := bind_eq_ok.1 e
  obtain ⟨c₅, -, rfl⟩ := lift_eq_ok.1 e₅
  rw [edit_eq] at e
  split at e
  · rename_i d hname
    cases e
    rw [(Draft.nameAlso_eq_ok hname).2]
  · cases e

/-! ## Sorts of statements -/

theorem ofWord?_of_opening {text : String}
    (h : text ∈ ["OPTION", "TEMP", "ADDRESS", "ATTRIB", "PARAM", "OUTPUT", "ALIAS"]) :
    Instruction.ofWord? kind text = none := by
  revert text
  cases kind <;> decide

/-- The sorts of statements, by their first word: options, lists of registers, names for bindings,
second names, and instructions. -/
inductive Opens (kind : ProgramKind) (limits : Limits) (word : Token) : Parse Unit → Prop
  | option : word.text = "OPTION" → Opens kind limits word (option kind word)
  | registers {step : Parse Unit} : word.text ∈ ["TEMP", "ADDRESS"] → IsQuiet step →
      (∀ p q, step p = .ok () q → ∃ k, registers limits k p = .ok () q) → Opens kind limits word step
  | binding {step : Parse Unit} : word.text ∈ ["ATTRIB", "PARAM", "OUTPUT"] → IsQuiet step →
      DeclaresNext step → Opens kind limits word step
  | secondName : word.text = "ALIAS" → Opens kind limits word secondName
  | instruction : word.text ∉ ["OPTION", "TEMP", "ADDRESS", "ATTRIB", "PARAM", "OUTPUT", "ALIAS"] →
      Opens kind limits word (instruction kind limits word)

variable (kind limits) in
theorem opens_openedBy (word : Token) : Opens kind limits word (openedBy kind limits word) := by
  unfold openedBy
  split
  · exact .option ‹_›
  · exact .registers (by simp [*]) inferInstance fun p q e => ⟨_, e⟩
  · refine .registers (by simp [*]) inferInstance fun p q e => ⟨.address, ?_⟩
    split at e
    · cases e
    · exact e
  · exact .binding (by simp [*]) inferInstance inferInstance
  · exact .binding (by simp [*]) inferInstance inferInstance
  · exact .binding (by simp [*]) inferInstance inferInstance
  · exact .secondName ‹_›
  · refine .instruction ?_
    simp only [List.mem_cons, List.not_mem_nil, or_false, not_or]
    exact ⟨‹_›, ‹_›, ‹_›, ‹_›, ‹_›, ‹_›, ‹_›⟩

/-! ## Accepted statements -/

namespace Accepts

variable {p q : Progress} {run : List Token}

/-- A word that comes first is the first of the statement. -/
theorem head?_of_rest (h : Accepts kind limits p run q) {name : Token} {ts : List Token}
    (hrest : p.cursor.rest = name :: ts) (hname : name.kind = .identifier) : run.head? = some name := by
  have hsame := h.rest
  rw [hrest] at hsame
  cases run with
  | nil =>
    have hstop := h.stop
    rw [← (List.cons.inj hsame).1, hname] at hstop
    cases hstop
  | cons t run => exact congrArg some (List.cons.inj hsame).1.symm

/-- **An accepted statement declares the names that it announces**, at the words that they are. -/
theorem declared (h : Accepts kind limits p run q) :
    declaredPlaces q.draft.vars = declaredPlaces p.draft.vars ++
      (Token.declaringWords (p.cursor.current :: run)).map Token.place := by
  have hopens := opens_openedBy kind limits p.cursor.current
  have e := h.step
  generalize openedBy kind limits p.cursor.current = step at hopens e
  rw [Token.declaringWords]
  cases hopens with
  | option hword =>
    rw [(option_vars e).1, if_neg (by simp [hword]), if_neg (by simp [hword]), List.map_nil,
      List.append_nil]
  | secondName hword =>
    rw [secondName_vars e, if_neg (by simp [hword]), if_neg (by simp [hword]), List.map_nil,
      List.append_nil]
  | registers hword hquiet hstep =>
    obtain ⟨k, e⟩ := hstep p q e
    obtain ⟨run', hrest, hnames⟩ := registersWithin_declares e
    rw [hnames, List.append_cancel_right (h.rest.symm.trans hrest), if_pos hword]
  | binding hword hquiet hstep =>
    obtain ⟨name, ts, hrest, hname, hnames⟩ := hstep.declares e
    have hword' : p.cursor.current.text ∉ ["TEMP", "ADDRESS"] := by
      intro h'
      simp only [List.mem_cons, List.not_mem_nil, or_false] at hword h'
      rcases hword with h | h | h <;> simp [h] at h'
    rw [hnames, if_neg hword', if_pos hword, h.head?_of_rest hrest hname]
    rfl
  | instruction hword =>
    obtain ⟨i, d, -, -, hnotes, hd⟩ := instruction_eq_ok e
    obtain ⟨-, -, more, hvars, hmore⟩ := Draft.Notes.frame_of_many hnotes
    have hnames : declaredPlaces q.draft.vars = declaredPlaces p.draft.vars := by
      rw [hd]
      change declaredPlaces d.vars = _
      rw [hvars, declaredPlaces_append, declaredPlaces_of_implicit hmore, List.append_nil]
    simp only [List.mem_cons, List.not_mem_nil, or_false, not_or] at hword
    rw [hnames, if_neg (by simp [hword]), if_neg (by simp [hword]), List.map_nil, List.append_nil]

/-- **An accepted statement adds the instruction that it announces**, and no other. -/
theorem headings (h : Accepts kind limits p run q) :
    q.draft.instructions.map Instruction.heading = p.draft.instructions.map Instruction.heading ++
      (Token.heading? kind (p.cursor.current :: run)).toList := by
  have hopens := opens_openedBy kind limits p.cursor.current
  have e := h.step
  generalize openedBy kind limits p.cursor.current = step at hopens e
  have hnone (hword : p.cursor.current.text ∈
      ["OPTION", "TEMP", "ADDRESS", "ATTRIB", "PARAM", "OUTPUT", "ALIAS"]) :
      Token.heading? kind (p.cursor.current :: run) = none := by
    rw [Token.heading?, ofWord?_of_opening hword, Option.map_none]
  have hquiet [hstep : IsQuiet step] (hword : p.cursor.current.text ∈
      ["OPTION", "TEMP", "ADDRESS", "ATTRIB", "PARAM", "OUTPUT", "ALIAS"]) :
      q.draft.instructions.map Instruction.heading = p.draft.instructions.map Instruction.heading ++
        (Token.heading? kind (p.cursor.current :: run)).toList := by
    rw [hnone hword, (hstep.same e).instructions]
    exact (List.append_nil _).symm
  cases hopens with
  | option hword =>
    rw [hnone (by simp [hword]), (option_vars e).2]
    exact (List.append_nil _).symm
  | secondName hword => exact hquiet (by simp [hword])
  | registers hword hstep => exact hquiet (List.mem_cons_of_mem _ (List.mem_append_left _ hword))
  | binding hword hstep =>
    exact hquiet (List.mem_append_right ["OPTION", "TEMP", "ADDRESS"] (List.mem_append_left ["ALIAS"] hword))
  | instruction hword =>
    obtain ⟨i, d, hofWord, hoffset, hnotes, hd⟩ := instruction_eq_ok e
    rw [hd, Draft.push, (Draft.Notes.frame_of_many hnotes).1, Token.heading?, hofWord]
    simp [Instruction.heading, hoffset]

end Accepts

end Parse

end ShaderAssembly
