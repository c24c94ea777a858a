import ShaderAssembly.Proofs.Initializer.Recognition
import ShaderAssembly.Proofs.Initializer.Scan
import ShaderAssembly.Proofs.Framing.Statement
import ShaderAssembly.Proofs.Locality.Run
import ShaderAssembly.Proofs.Parsing.Characters
/-!
# Parameters have the vectors that their initializers stand for

* `Draft.withParam`: the draft with one more parameter;
* `Parse.param_spelled`: a declaration that is spelled is accepted exactly if it is admissible and its
  name is new;
* `Parse.spelled_of_param`: a declaration that is accepted is spelled;
* **`ProgramReader.step_param`**: what a reader does on a parameter.
-/

namespace ShaderAssembly

open Reading (Decides bind_of_ok bind_of_error)

variable {α : Type} {kind : ProgramKind} {limits : Limits} {c d : Cursor} {draft : Draft}

/-- The draft with one more parameter, under a new name. -/
def Draft.withParam (draft : Draft) (name : Token) (k : VariableKind) : Draft :=
  { draft with
    vars := draft.vars ++ [{ name := name.text, kind := k, offset := name.offset }]
    symbols := (name.text, draft.vars.length) :: draft.symbols }

namespace Parse

/-! ## Steps -/

theorem lift_decides {scan : Scan α} {P : Prop} {a : α} (h : Decides scan c P a d) :
    Decides (liftM scan : Parse α) ⟨c, draft⟩ P a ⟨d, draft⟩ := by
  refine ⟨fun hP => ?_, fun hP => ?_⟩
  · rw [lift_eq]
    simp only [h.1 hP]
  · obtain ⟨f, e, herror⟩ := h.2 hP
    refine ⟨f, ⟨e, draft⟩, ?_⟩
    rw [lift_eq]
    simp only [herror]

theorem declare_decides (name : Token) {k : VariableKind}
    (hk : (∃ b, k = .param b) ∨ ∃ bs, k = .paramArray bs) :
    Decides (edit (·.declare limits name.text k name.offset) name.offset) ⟨c, draft⟩
      (draft.checkName name.text = .ok ()) () ⟨c, draft.withParam name k⟩ := by
  have hcount : draft.checkCount limits k = .ok () := by
    obtain ⟨b, rfl⟩ | ⟨bs, rfl⟩ := hk <;> rfl
  have hother : k ≠ .temporary ∧ k ≠ .address := by
    obtain ⟨b, rfl⟩ | ⟨bs, rfl⟩ := hk <;> exact ⟨nofun, nofun⟩
  rw [Decides, edit_eq, Draft.declare, hcount]
  cases hname : draft.checkName name.text with
  | ok u =>
    refine ⟨fun _ => ?_, fun hnot => absurd rfl hnot⟩
    have hsame : draft.withParam name k = { draft.withParam name k with
        temporaryCount := if k = .temporary then draft.temporaryCount + 1 else draft.temporaryCount
        addressCount := if k = .address then draft.addressCount + 1 else draft.addressCount } := by
      rw [if_neg hother.1, if_neg hother.2]
      rfl
    rw [hsame]
    rfl
  | error cause => exact ⟨nofun, fun _ => ⟨_, _, rfl⟩⟩

/-! ## Declarations that are spelled -/

/-- An initializer that is one vector is accepted exactly if it is admissible. -/
theorem singleParam_spelled {item : Initializer} (h : item.Spelled limits c d) (hend : d.Ends)
    {b : ParamBinding} (hb : item.expand = [b]) :
    Decides (Scan.singleParam limits c.upcoming) c.advance (item.Admissible limits) b d := by
  have hitem := Scan.paramItem_spelled h hend false
  rw [hb] at hitem
  have hsingle : Decides (Scan.singleParam limits c.upcoming) c.advance
      (item.Admissible limits ∧ (false = true ∨ [b].length = 1)) b d := hitem.before rfl
  exact hsingle.congr (and_iff_left (.inr rfl))

/-- An initializer that is not one vector is refused where one is wanted. -/
theorem singleParam_refused {item : Initializer} (h : item.Spelled limits c d) (hend : d.Ends)
    (hmany : item.expand.length ≠ 1) :
    ∃ f e, Scan.singleParam limits c.upcoming c.advance = .error f e := by
  obtain ⟨f, e, herror⟩ := (Scan.paramItem_spelled h hend false).2 fun hP => hmany (hP.2.resolve_left nofun)
  exact ⟨f, e, bind_of_error herror⟩

theorem arraySize_spelled {size : Option Nat} {c₁ c₂ c₃ : Cursor}
    (hleft : c.Shows [(·.kind = .leftBracket)] c₁)
    (hsize : c₁.Shows (size.toList.map fun n t => t.kind = .integer n) c₂)
    (hright : c₂.Shows [(·.kind = .rightBracket)] c₃) :
    ∃ offset, arraySize c = .ok (size.map (⟨·, offset⟩)) c₃ := by
  obtain ⟨hleft, rfl⟩ := hleft
  obtain ⟨hright, rfl⟩ := hright
  refine ⟨c.advance.upcoming.offset, ?_⟩
  rw [arraySize, bind_of_ok (Scan.expect_eq_ok.2 ⟨hleft, rfl⟩), bind_of_ok (Scan.next_eq _)]
  cases size with
  | none =>
    obtain rfl : c₂ = c.advance := hsize
    simp only [hright]
    rfl
  | some n =>
    obtain ⟨hn, rfl⟩ := hsize
    simp only [hn]
    rw [bind_of_ok (Scan.expect_eq_ok.2 ⟨hright, rfl⟩)]
    rfl

/-- What stands behind the name of a single parameter and its equals sign. -/
def paramValue (limits : Limits) (name : Token) : Parse Unit := do
  let item ← Scan.singleParam limits (← Scan.next)
  Scan.expect .semicolon "';'"
  edit (·.declare limits name.text (.param item) name.offset) name.offset

theorem param_eq_paramValue {name : Token} (hname : c.upcoming.kind = .identifier ∧ c.upcoming = name)
    (hequals : c.advance.upcoming.kind = .equals) :
    param limits ⟨c, draft⟩ = paramValue limits name ⟨c.advance.advance, draft⟩ := by
  obtain ⟨hword, rfl⟩ := hname
  rw [param, bind_of_ok (lift_of_ok (Scan.word_eq_ok.2 ⟨hword, rfl, rfl⟩)),
    bind_of_ok (lift_of_ok (Scan.peek_eq _)), if_neg (by rw [hequals]; decide),
    bind_of_ok (lift_of_ok (Scan.expect_eq_ok.2 ⟨hequals, rfl⟩))]
  rfl

theorem param_eq_paramArray {name : Token} (hname : c.upcoming.kind = .identifier ∧ c.upcoming = name)
    (hbracket : c.advance.upcoming.kind = .leftBracket) :
    param limits ⟨c, draft⟩ = paramArray limits name ⟨c.advance, draft⟩ := by
  obtain ⟨hword, rfl⟩ := hname
  rw [param, bind_of_ok (lift_of_ok (Scan.word_eq_ok.2 ⟨hword, rfl, rfl⟩)),
    bind_of_ok (lift_of_ok (Scan.peek_eq _)), if_pos (by rw [hbracket]; decide)]

theorem paramValue_spelled (draft : Draft) (name : Token) {item : Initializer} {e : Cursor}
    (h : item.Spelled limits c d) (hstop : d.Shows [(·.kind = .semicolon)] e) {b : ParamBinding}
    (hb : item.expand = [b]) :
    Decides (paramValue limits name) ⟨c, draft⟩
      (item.Admissible limits ∧ draft.checkName name.text = .ok ()) ()
      ⟨e, draft.withParam name (.param b)⟩ := by
  obtain ⟨hstop, rfl⟩ := hstop
  have hend : d.Ends := ⟨by rw [hstop]; decide, by rw [hstop]; decide⟩
  refine .behind (lift_of_ok (Scan.next_eq c))
    ((lift_decides (singleParam_spelled h hend hb)).bind fun _ => ?_)
  exact .behind (lift_of_ok (Scan.expect_eq_ok.2 ⟨hstop, rfl⟩)) (declare_decides name (.inl ⟨b, rfl⟩))

theorem paramArray_spelled (draft : Draft) (name : Token) {size : Option Nat} {items : List Initializer}
    {c₁ c₂ c₃ c₄ : Cursor} (hleft : c.Shows [(·.kind = .leftBracket)] c₁)
    (hsize : c₁.Shows (size.toList.map fun n t => t.kind = .integer n) c₂)
    (hright : c₂.Shows [(·.kind = .rightBracket), (·.kind = .equals), (·.kind = .leftBrace)] c₃)
    (hitems : c₃.Lists (Initializer.Spelled limits) items c₄) (hstop : c₄.Shows [(·.kind = .semicolon)] d) :
    Decides (paramArray limits name) ⟨c, draft⟩
      ((Initialization.array size items).Admissible limits ∧ draft.checkName name.text = .ok ()) ()
      ⟨d, draft.withParam name (.paramArray (items.flatMap Initializer.expand))⟩ := by
  obtain ⟨hright, hequals, hbrace, rfl⟩ := hright
  obtain ⟨hstop, rfl⟩ := hstop
  obtain ⟨offset, hsize⟩ := arraySize_spelled hleft hsize ⟨hright, rfl⟩
  let elements := items.flatMap Initializer.expand
  unfold paramArray
  refine Decides.congr (.behind (lift_of_ok hsize) (.behind (lift_of_ok (Scan.expect_eq_ok.2 ⟨hequals, rfl⟩))
    (.behind (lift_of_ok (Scan.expect_eq_ok.2 ⟨hbrace, rfl⟩))
      ((lift_decides (Scan.paramItems_spelled hitems)).bind (Q := (∀ n ∈ size, n = elements.length) ∧
        draft.checkName name.text = .ok ()) fun hadmissible =>
          .behind (lift_of_ok (Scan.expect_eq_ok.2 ⟨hstop, rfl⟩)) ?_)))) and_assoc.symm
  have hnonempty : ¬ elements.isEmpty = true := by
    rw [List.isEmpty_iff]
    exact Initializer.flatMap_expand_ne_nil hitems.ne_nil hadmissible
  have hdeclare : Decides (do
      if elements.isEmpty then refuse .emptyArray name.offset
      edit (·.declare limits name.text (.paramArray elements) name.offset) name.offset)
      ⟨c₄.advance, draft⟩ (draft.checkName name.text = .ok ()) ()
      ⟨c₄.advance, draft.withParam name (.paramArray elements)⟩ := by
    rw [if_neg hnonempty]
    exact declare_decides name (.inr ⟨elements, rfl⟩)
  cases size with
  | none => exact hdeclare.congr (and_iff_right nofun).symm
  | some n =>
    refine Decides.congr (Decides.guard rfl fun _ => hdeclare) (and_congr_left' ?_)
    simp [elements]

/-- **A declaration that is spelled is accepted exactly if it is admissible and its name is new.** -/
theorem param_spelled (draft : Draft) {name : Token} {i : Initialization} (h : i.Spelled limits name c d) :
    (i.Admissible limits ∧ draft.checkName name.text = .ok () →
      ∃ k, i.Gives k ∧ param limits ⟨c, draft⟩ = .ok () ⟨d, draft.withParam name k⟩) ∧
    (¬ (i.Admissible limits ∧ draft.checkName name.text = .ok ()) →
      ∃ f q, param limits ⟨c, draft⟩ = .error f q) := by
  cases h with
  | @single item c₁ c₂ _ hname hitem hstop =>
    obtain ⟨hname, hequals, rfl⟩ := hname
    rw [param_eq_paramValue hname hequals]
    by_cases hone : ∃ b, item.expand = [b]
    · obtain ⟨b, hb⟩ := hone
      have hvalue := paramValue_spelled draft name hitem hstop hb
      have hadmissible : (Initialization.single item).Admissible limits ↔ item.Admissible limits :=
        and_iff_left (by rw [hb]; rfl)
      rw [hadmissible]
      exact ⟨fun hP => ⟨.param b, .single hb, hvalue.1 hP⟩, hvalue.2⟩
    · have hmany : item.expand.length ≠ 1 := fun hlength => hone (List.length_eq_one_iff.1 hlength)
      refine ⟨fun hP => absurd hP.1.2 hmany, fun _ => ?_⟩
      obtain ⟨hstop, rfl⟩ := hstop
      obtain ⟨f, e, herror⟩ := singleParam_refused hitem ⟨by rw [hstop]; decide, by rw [hstop]; decide⟩ hmany
      refine ⟨f, ⟨e, draft⟩, ?_⟩
      rw [paramValue, bind_of_ok (lift_of_ok (Scan.next_eq _))]
      exact bind_of_error (by rw [lift_eq]; simp only [herror])
  | @array size items _ _ _ _ _ hname hsize hright hitems hstop =>
    obtain ⟨hname, hleft, rfl⟩ := hname
    rw [param_eq_paramArray hname hleft]
    have harray := paramArray_spelled draft name ⟨hleft, rfl⟩ hsize hright hitems hstop
    exact ⟨fun hP => ⟨_, .array size items, harray.1 hP⟩, harray.2⟩

/-! ## Declarations that are accepted -/

theorem singleParam_yields : Scan.Yields (Scan.singleParam limits c.upcoming) c.advance fun _ d =>
    ∃ item : Initializer, item.Spelled limits c d := by
  refine (Scan.paramItem_yields false).bind fun items d h => ?_
  split
  · exact .of_pure h
  · exact .of_refuse

theorem arraySize_yields : Scan.Yields arraySize c fun size d => ∃ c₁ c₂,
    c.Shows [(·.kind = .leftBracket)] c₁ ∧
      c₁.Shows ((size.map (·.value)).toList.map fun n t => t.kind = .integer n) c₂ ∧
      c₂.Shows [(·.kind = .rightBracket)] d := by
  refine .expect fun hleft => .next ?_
  split
  · rename_i n hn
    exact .expect fun hright => .of_pure ⟨c.advance, c.advance.advance, ⟨hleft, rfl⟩, ⟨hn, rfl⟩, hright, rfl⟩
  · rename_i hright
    exact .of_pure ⟨c.advance, c.advance, ⟨hleft, rfl⟩, rfl, hright, rfl⟩
  · exact .of_unexpected

theorem exists_scan_of_bind {scan : Scan α} {f : α → Parse Unit} {Q : α → Cursor → Prop} {u : Unit}
    {q : Progress} (hscan : scan.Yields c Q) (e : (liftM scan >>= f) ⟨c, draft⟩ = .ok u q) :
    ∃ a d, Q a d ∧ f a ⟨d, draft⟩ = .ok u q := by
  obtain ⟨a, _, e₁, e₂⟩ := bind_eq_ok.1 e
  obtain ⟨d, hd, rfl⟩ := lift_eq_ok.1 e₁
  exact ⟨a, d, hscan a d hd, e₂⟩

theorem expect_yields {k : TokenKind} {wanted : String} :
    (Scan.expect k wanted).Yields c fun _ d => c.Shows [(·.kind = k)] d := fun _ _ e => Scan.expect_eq_ok.1 e

theorem spelled_of_paramValue {name : Token} {u : Unit} {q : Progress}
    (e : paramValue limits name ⟨c, draft⟩ = .ok u q) : ∃ item : Initializer, ∃ d,
      item.Spelled limits c d ∧ d.Shows [(·.kind = .semicolon)] q.cursor := by
  obtain ⟨_, _, ⟨⟩, e⟩ := bind_eq_ok.1 e
  obtain ⟨b, d, ⟨item, hitem⟩, e⟩ := exists_scan_of_bind singleParam_yields e
  obtain ⟨_, d', hstop, e⟩ := exists_scan_of_bind expect_yields e
  have hplace : q.cursor = d' := StandsStill.cursor_eq e
  exact ⟨item, d, hitem, hplace ▸ hstop⟩

theorem spelled_of_paramArray {name : Token} {u : Unit} {q : Progress}
    (e : paramArray limits name ⟨c, draft⟩ = .ok u q) :
    ∃ (size : Option Nat) (items : List Initializer) (c₁ c₂ c₃ c₄ : Cursor),
      c.Shows [(·.kind = .leftBracket)] c₁ ∧
        c₁.Shows (size.toList.map fun n t => t.kind = .integer n) c₂ ∧
        c₂.Shows [(·.kind = .rightBracket), (·.kind = .equals), (·.kind = .leftBrace)] c₃ ∧
        c₃.Lists (Initializer.Spelled limits) items c₄ ∧ c₄.Shows [(·.kind = .semicolon)] q.cursor := by
  obtain ⟨size, d₁, ⟨c₁, c₂, hleft, hsize, hright, rfl⟩, e⟩ := exists_scan_of_bind arraySize_yields e
  obtain ⟨_, d₂, ⟨hequals, rfl⟩, e⟩ := exists_scan_of_bind expect_yields e
  obtain ⟨_, c₃, ⟨hbrace, rfl⟩, e⟩ := exists_scan_of_bind expect_yields e
  obtain ⟨elements, c₄, ⟨items, hitems⟩, e⟩ := exists_scan_of_bind Scan.paramItems_yields e
  obtain ⟨_, d, hstop, e⟩ := exists_scan_of_bind expect_yields e
  have hplace : q.cursor = d := by
    cases size <;> exact StandsStill.cursor_eq e
  exact ⟨_, items, c₁, c₂, _, c₄, hleft, hsize, ⟨hright, hequals, hbrace, rfl⟩, hitems, hplace ▸ hstop⟩

/-- **A declaration that is accepted is spelled.** -/
theorem spelled_of_param {u : Unit} {q : Progress} (e : param limits ⟨c, draft⟩ = .ok u q) :
    ∃ name, ∃ i : Initialization, i.Spelled limits name c q.cursor := by
  obtain ⟨name, _, e₁, e⟩ := bind_eq_ok.1 e
  obtain ⟨_, hword, rfl⟩ := lift_eq_ok.1 e₁
  obtain ⟨hname, rfl, rfl⟩ := Scan.word_eq_ok.1 hword
  obtain ⟨_, _, ⟨⟩, e⟩ := bind_eq_ok.1 e
  refine ⟨c.upcoming, ?_⟩
  split at e
  · obtain ⟨size, items, c₁, c₂, c₃, c₄, ⟨hleft, rfl⟩, hsize, hright, hitems, hstop⟩ :=
      spelled_of_paramArray e
    exact ⟨.array size items, .array ⟨⟨hname, rfl⟩, hleft, rfl⟩ hsize hright hitems hstop⟩
  · obtain ⟨_, d, ⟨hequals, rfl⟩, e⟩ := exists_scan_of_bind expect_yields e
    obtain ⟨item, d, hitem, hstop⟩ := spelled_of_paramValue e
    exact ⟨.single item, .single ⟨⟨hname, rfl⟩, hequals, rfl⟩ hitem hstop⟩

end Parse

namespace ProgramReader

variable {r : ProgramReader}

theorem step_eq_of_param (hrun : r.status = .running) (hword : r.current.IsWord "PARAM") :
    r.step kind limits =
      match Parse.param limits r.progress with
      | .ok _ p => { progress := p }
      | .error fault p => { progress := p, status := .failed fault } := by
  have hopened : Parse.openedBy kind limits r.current = Parse.param limits := by
    unfold Parse.openedBy
    simp only [hword.2]
  have hstatement : Parse.statementHere kind limits r.progress =
      (Parse.param limits >>= fun _ => pure true) r.progress := by
    rw [Parse.statementHere_eq, Parse.statementAt]
    simp only [show r.progress.cursor.current.kind = .identifier from hword.1]
    rw [Parse.statement_eq, if_neg (by rw [show r.progress.cursor.current.text = _ from hword.2]; decide)]
    rw [show r.progress.cursor.current = r.current from rfl, hopened]
  unfold step
  simp only [hrun, hstatement]
  cases e : Parse.param limits r.progress with
  | ok u p => rw [bind_of_ok e]; rfl
  | error f p => rw [bind_of_error e]

/-- **A parameter has the vectors that its initializers stand for.** What a reader accepts as a
parameter is a declaration with one initializer or with a list of them, and it declares the vectors
of these, in their order. It accepts such a declaration exactly if every initializer is admissible,
one initializer is one vector, a given number of vectors is right, and the name is new. -/
theorem step_param (hrun : r.status = .running) (hword : r.current.IsWord "PARAM") :
    ((r.step kind limits).status = .running → ∃ name, ∃ i : Initialization, ∃ d k,
      i.Spelled limits name r.progress.cursor d ∧ i.Admissible limits ∧ i.Gives k ∧
        r.step kind limits = { progress := ⟨d, r.progress.draft.withParam name k⟩ }) ∧
    ∀ name, ∀ i : Initialization, ∀ d, i.Spelled limits name r.progress.cursor d →
      (i.Admissible limits ∧ r.progress.draft.checkName name.text = .ok () →
        ∃ k, i.Gives k ∧ r.step kind limits = { progress := ⟨d, r.progress.draft.withParam name k⟩ }) ∧
      (¬ (i.Admissible limits ∧ r.progress.draft.checkName name.text = .ok ()) →
        ∃ fault, (r.step kind limits).status = .failed fault) := by
  have hspelled (name : Token) (i : Initialization) (d : Cursor)
      (hi : i.Spelled limits name r.progress.cursor d) :
      (i.Admissible limits ∧ r.progress.draft.checkName name.text = .ok () →
        ∃ k, i.Gives k ∧ r.step kind limits = { progress := ⟨d, r.progress.draft.withParam name k⟩ }) ∧
      (¬ (i.Admissible limits ∧ r.progress.draft.checkName name.text = .ok ()) →
        ∃ fault, (r.step kind limits).status = .failed fault) := by
    obtain ⟨haccepted, hrefused⟩ := Parse.param_spelled r.progress.draft hi
    rw [step_eq_of_param hrun hword]
    refine ⟨fun hP => ?_, fun hP => ?_⟩
    · obtain ⟨k, hk, e⟩ := haccepted hP
      exact ⟨k, hk, by rw [show Parse.param limits r.progress = _ from e]⟩
    · obtain ⟨f, q, e⟩ := hrefused hP
      exact ⟨f, by rw [show Parse.param limits r.progress = _ from e]⟩
  refine ⟨fun hrunning => ?_, hspelled⟩
  obtain ⟨name, i, d, hi⟩ : ∃ name, ∃ i : Initialization, ∃ d,
      i.Spelled limits name r.progress.cursor d := by
    rw [step_eq_of_param hrun hword] at hrunning
    cases e : Parse.param limits r.progress with
    | ok u p =>
      obtain ⟨name, i, hi⟩ := Parse.spelled_of_param e
      exact ⟨name, i, _, hi⟩
    | error f p =>
      rw [e] at hrunning
      cases hrunning
  by_cases hP : i.Admissible limits ∧ r.progress.draft.checkName name.text = .ok ()
  · obtain ⟨k, hk, hstep⟩ := (hspelled name i d hi).1 hP
    exact ⟨name, i, d, k, hi, hP.1, hk, hstep⟩
  · obtain ⟨fault, hfailed⟩ := (hspelled name i d hi).2 hP
    rw [hfailed] at hrunning
    cases hrunning

/-- A parameter with initializers of every form. -/
def everyForm : String :=
  "!!ARBvp1.0\nPARAM m[7] = \x7b -2, \x7b 1, 3 \x7d, state.matrix.mvp.transpose.row[1..2], " ++
    "program.env[4..5], state.fog.color \x7d;\nEND\n"

theorem step_param_everyForm :
    let r := ofSource everyForm 10
    (r.step .vertex (Limits.ofKind .vertex)).status = .running ∧ ∃ name size items d,
      (Initialization.array size items).Spelled (Limits.ofKind .vertex) name r.progress.cursor d ∧
      items.flatMap Initializer.expand =
        [.constant (.replicate (Single.ofNat 2).negate),
          .constant ⟨Single.ofNat 1, Single.ofNat 3, Single.zero false, Single.one⟩,
          .state (.matrixRow .mvp .transpose 1), .state (.matrixRow .mvp .transpose 2),
          .env 4, .env 5, .state .fogColor] := by
  intro r
  obtain ⟨hword, hrunning, hkinds⟩ :
      (r.current.kind = .identifier ∧ r.current.text = "PARAM") ∧
      (r.step .vertex (Limits.ofKind .vertex)).status = .running ∧
      (r.step .vertex (Limits.ofKind .vertex)).progress.draft.vars.map (·.kind) =
        [.paramArray
          [.constant (.replicate (Single.ofNat 2).negate),
            .constant ⟨Single.ofNat 1, Single.ofNat 3, Single.zero false, Single.one⟩,
            .state (.matrixRow .mvp .transpose 1), .state (.matrixRow .mvp .transpose 2),
            .env 4, .env 5, .state .fogColor]] := by
    unfold r
    rw [show everyForm = String.ofList _ from String.ofList_append.symm, ofSource_ofList]
    decide +kernel
  obtain ⟨name, i, d, k, hi, -, hk, hstep⟩ := (step_param (r := r) rfl hword).1 hrunning
  rw [hstep] at hkinds
  obtain rfl := (List.cons.inj hkinds).1
  refine ⟨hrunning, name, ?_⟩
  generalize hbs : VariableKind.paramArray _ = k at hk
  cases hk with
  | single => cases hbs
  | array size items => exact ⟨size, items, d, hi, (VariableKind.paramArray.inj hbs).symm⟩

end ProgramReader

end ShaderAssembly
