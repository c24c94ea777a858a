import ShaderAssembly.Proofs.Framing.Declared
/-!
# Programs are their statements

An accepted program consists of the statements between its semicolons. Each of them is read once, up
to its first semicolon, and the program has what they announce.

* `Token.Framed`: tokens that are statements up to `END`;
* `ProgramReader.ClosesStatement`, `ProgramReader.exists_closesStatement`: a step reads up to the first
  semicolon;
* `ProgramReader.takesStatements_of_done`: a run that is done takes the statements one by one;
* **`framing`**: nothing is lost, and nothing is counted twice.
-/

namespace ShaderAssembly

variable {kind : ProgramKind} {limits : Limits}

/-! ## Statements in the text -/

/-- Tokens that are statements and a semicolon behind each, up to the word `END`. A statement starts
with another word and has no semicolon. -/
inductive Token.Framed : List (List Token) → List Token → Prop
  | done {word : Token} (more : List Token) :
    word.kind = .identifier → word.text = "END" → Framed [] (word :: more)
  | statement {word stop : Token} {run more : List Token} {runs : List (List Token)} :
    word.kind = .identifier → word.text ≠ "END" → (∀ t ∈ run, t.kind ≠ .semicolon) →
      stop.kind = .semicolon → Framed runs more →
      Framed ((word :: run) :: runs) (word :: run ++ stop :: more)

/-- There is one way at most to read tokens as statements. -/
theorem Token.Framed.statements_eq {runs : List (List Token)} {ts : List Token} (h : Framed runs ts) :
    statements ts = runs := by
  induction h with
  | done more hword hend => exact statements_of_end hend more
  | statement hword hend hrun hstop _ ih => rw [statements_append hword hend hrun hstop, ih]

namespace ProgramReader

variable {r : ProgramReader}

/-! ## One statement -/

/-- The reader `r'` stands on the first semicolon behind the word that `r` stands on, which is not
`END`; the tokens between them are `run`. -/
structure ClosesStatement (r : ProgramReader) (run : List Token) (r' : ProgramReader) : Prop where
  word : r.current.kind = .identifier
  notEnd : r.current.text ≠ "END"
  rest : r.progress.cursor.rest = run ++ r'.current :: r'.progress.cursor.rest
  inside : ∀ t ∈ run, t.kind ≠ .semicolon
  stop : r'.current.kind = .semicolon

/-- A step after which the reader goes on has read up to the first semicolon. -/
theorem exists_closesStatement
    (hlexed : ∀ t ∈ r.progress.cursor.rest, t.kind = .semicolon → t.Terminates)
    (h : (r.step kind limits).status = .running) :
    ∃ run, r.ClosesStatement run (r.step kind limits) := by
  obtain ⟨-, q, e, hstep⟩ := statement_of_running h
  obtain ⟨run, haccepts⟩ := Parse.exists_accepts hlexed e
  rw [hstep]
  exact ⟨run, haccepts.word, haccepts.notEnd, haccepts.rest, haccepts.inside, haccepts.stop⟩

/-! ## Runs -/

/-- Step by step the reader takes the statements `runs`, and comes to `END` behind them. -/
def TakesStatements (kind : ProgramKind) (limits : Limits) (r : ProgramReader)
    (runs : List (List Token)) : Prop :=
  ∀ n ≤ runs.length, (r.runWithin kind limits n).status = .running ∧
    Token.Framed (runs.drop n) ((r.runWithin kind limits n).current ::
      (r.runWithin kind limits n).progress.cursor.rest)

theorem takesStatements_of_done {bound : Nat} (hr : r.status = .running)
    (hlexed : ∀ t ∈ r.progress.cursor.rest, t.kind = .semicolon → t.Terminates)
    (hdone : (r.runWithin kind limits bound).status = .done) :
    ∃ runs, r.TakesStatements kind limits runs := by
  induction bound generalizing r with
  | zero =>
    rw [runWithin, hr] at hdone
    cases hdone
  | succ bound ih =>
    obtain hend | ⟨run, q, h, hq⟩ := atEnd_or_accepts hr hlexed hdone
    · refine ⟨[], fun n hn => ?_⟩
      obtain rfl : n = 0 := Nat.le_zero.1 hn
      exact ⟨hr, .done _ hend.kind hend.text⟩
    · rw [runWithin_succ hr, hq] at hdone
      have hlexed' : ∀ t ∈ q.cursor.rest.tail, t.kind = .semicolon → t.Terminates := by
        intro t ht
        refine hlexed t ?_
        rw [h.rest]
        simp [List.mem_of_mem_tail ht]
      obtain ⟨runs, hruns⟩ := ih rfl hlexed' hdone
      -- the word behind the semicolon is there, so it starts what is left
      have hnext : q.cursor.upcoming.kind = .identifier := identifier_of_done rfl hlexed' hdone
      have hrest := Cursor.rest_of_upcoming (c := q.cursor) (by simp [hnext])
      refine ⟨(r.current :: run) :: runs, fun n hn => ?_⟩
      cases n with
      | zero =>
        refine ⟨hr, ?_⟩
        change Token.Framed ((r.current :: run) :: runs) (r.current :: r.progress.cursor.rest)
        rw [h.rest, hrest]
        exact .statement h.word h.notEnd h.inside h.stop (hruns 0 (Nat.zero_le _)).2
      | succ n =>
        rw [runWithin_succ hr, hq]
        exact hruns n (Nat.le_of_succ_le_succ hn)

end ProgramReader

/-! ## Programs -/

theorem framed_of_done {source : String} {start bound : Nat}
    (hdone : ((ProgramReader.ofSource source start).runWithin kind limits bound).status = .done) :
    ∃ runs, Token.Framed runs (Token.significant source start) ∧
      (ProgramReader.ofSource source start).TakesStatements kind limits runs := by
  let c : Cursor := ⟨source.toList, Token.endAt start, Token.significant source start⟩
  have hlexed : ∀ t ∈ c.rest.tail, t.kind = .semicolon → t.Terminates := by
    intro t ht
    have hmem : t ∈ Token.significant source start := List.mem_of_mem_tail ht
    exact Token.terminates_of_mem_ofSource (List.mem_filter.1 hmem).1
  obtain ⟨runs, htakes⟩ :=
    ProgramReader.takesStatements_of_done (r := .ofSource source start) rfl hlexed hdone
  have hword : c.upcoming.kind = .identifier :=
    ProgramReader.identifier_of_done (r := .ofSource source start) rfl hlexed hdone
  have htokens : Token.significant source start = c.upcoming :: c.rest.tail :=
    Cursor.rest_of_upcoming (c := c) (by simp [hword])
  refine ⟨runs, ?_, htakes⟩
  rw [htokens]
  exact (htakes 0 (Nat.zero_le _)).2

theorem Parse.Accepts.announced {p q : Progress} {run : List Token} {ss : List (List Token)}
    (h : Accepts kind limits p run q)
    (hp : p.draft.instructions.map Instruction.heading = ss.filterMap (Token.heading? kind) ∧
      declaredPlaces p.draft.vars = (ss.flatMap Token.declaringWords).map Token.place) :
    q.draft.instructions.map Instruction.heading =
        (ss ++ [p.cursor.current :: run]).filterMap (Token.heading? kind) ∧
      declaredPlaces q.draft.vars =
        ((ss ++ [p.cursor.current :: run]).flatMap Token.declaringWords).map Token.place := by
  rw [h.headings, h.declared, hp.1, hp.2, List.filterMap_append, List.flatMap_append, List.map_append]
  refine ⟨congrArg _ ?_, congrArg _ (by rw [List.flatMap_singleton])⟩
  cases e : Token.heading? kind (p.cursor.current :: run) with
  | none => rw [List.filterMap_cons_none e, List.filterMap_nil, Option.toList_none]
  | some heading => rw [List.filterMap_cons_some e, List.filterMap_nil, Option.toList_some]

/-- **Nothing is lost, and nothing is counted twice.** A step after which the reader goes on starts on
a word and stops on the first semicolon behind it. The tokens of an accepted program are statements
up to `END`, of which the reader takes one a step; the instructions of the program are those that the
statements announce, and its declared variables have the names that they declare, in order. -/
theorem framing (kind : ProgramKind) :
    (∀ limits r, ProgramReader.Reachable kind limits r → (r.step kind limits).status = .running →
      ∃ run, r.ClosesStatement run (r.step kind limits)) ∧
    ∀ settings source m, readProgram settings source kind = .ok m →
      ∃ start runs, Header.classify source kind = .ok start ∧
        Token.Framed runs (Token.significant source start) ∧
        (ProgramReader.ofSource source start).TakesStatements kind (settings.limits kind) runs ∧
        m.instructions.map Instruction.heading = runs.filterMap (Token.heading? kind) ∧
        declaredNames m.vars = runs.flatMap Token.declaredNames := by
  refine ⟨fun limits r hr hstep => ?_, fun settings source m h => ?_⟩
  · obtain ⟨source, start, hr⟩ := ProgramReader.editedOver_of_reachable hr
    refine ProgramReader.exists_closesStatement (fun t ht => ?_) hstep
    have hrest := hr.rest (ProgramReader.statement_of_running hstep).1
    exact Token.terminates_of_mem_ofSource (List.mem_filter.1 (hrest.mem ht)).1
  · obtain ⟨start, d, hstart, rfl, hheadings, hplaces⟩ := invariant_of_readProgram
      (I := fun d ss => d.instructions.map Instruction.heading = ss.filterMap (Token.heading? kind) ∧
        declaredPlaces d.vars = (ss.flatMap Token.declaringWords).map Token.place)
      h ⟨rfl, rfl⟩ fun _ _ _ _ haccepts => haccepts.announced
    obtain ⟨start', hstart', -, hdone⟩ := done_of_readProgram h
    obtain rfl := Except.ok.inj (hstart.symm.trans hstart')
    obtain ⟨runs, hframed, htakes⟩ := framed_of_done hdone
    rw [hframed.statements_eq] at hheadings hplaces
    refine ⟨start, runs, hstart, hframed, htakes, hheadings, ?_⟩
    change declaredNames d.vars = _
    rw [declaredNames_eq, hplaces, List.map_map, List.map_flatMap]
    rfl

/-- A program of every sort of statement, with an implicit variable, and with more text behind its
end. -/
def everySort : String :=
  "!!ARBvp1.0\nOPTION ARB_position_invariant;\nTEMP a, b;\nPARAM p[2] = { program.env[0..1] };\n" ++
    "OUTPUT o = result.color;\nALIAS c = b;\nMOV c, p[1];\nADD o, c, vertex.position;\nEND\nTEMP z;\n"

theorem framing_everySort :
    (∃ r run, ProgramReader.Reachable .vertex (Limits.ofKind .vertex) r ∧
      r.ClosesStatement run (r.step .vertex (Limits.ofKind .vertex))) ∧
    ∃ m start runs, readProgram {} everySort .vertex = .ok m ∧
      Token.Framed runs (Token.significant everySort start) ∧
      runs.filterMap (Token.heading? .vertex) = [(.mov, false, 127), (.add, false, 140)] ∧
      runs.flatMap Token.declaredNames = ["a", "b", "p", "o"] := by
  obtain ⟨hsteps, hprograms⟩ := framing .vertex
  constructor
  · obtain ⟨run, hrun⟩ := hsteps (Limits.ofKind .vertex) (.ofSource everySort 10) (.start _ _)
      (by
        rw [show everySort = String.ofList _ from String.ofList_append.symm,
          ProgramReader.ofSource_ofList]
        decide +kernel)
    exact ⟨_, run, .start _ _, hrun⟩
  · have hok : (readProgram {} everySort .vertex).toOption.map
        (fun m => (m.instructions.map Instruction.heading, declaredNames m.vars)) =
          some ([(.mov, false, 127), (.add, false, 140)], ["a", "b", "p", "o"]) := by
      rw [show everySort = String.ofList _ from String.ofList_append.symm,
        toOption_readProgram_ofList]
      decide +kernel
    cases h : readProgram {} everySort .vertex with
    | error e =>
      rw [h] at hok
      cases hok
    | ok m =>
      rw [h] at hok
      obtain ⟨hheadings, hnames⟩ := Prod.mk.inj (Option.some.inj hok)
      obtain ⟨start, runs, -, hframed, -, hheadings', hnames'⟩ := hprograms {} everySort m h
      exact ⟨m, start, runs, rfl, hframed, hheadings'.symm.trans hheadings, hnames'.symm.trans hnames⟩

end ShaderAssembly
