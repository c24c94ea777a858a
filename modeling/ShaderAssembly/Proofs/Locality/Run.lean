import ShaderAssembly.Proofs.Locality.Statement
/-!
# Runs

A run takes statement after statement. Each takes a token at least, so a run stops by itself, and
what it has read up to some statement does not depend on what follows.

* `ProgramReader.stopped_run`: a run does not stop for want of rounds;
* `ProgramReader.runWithin_eq`: runs that have stopped are one and the same;
* `ProgramReader.AtEnd`, `ProgramReader.run_of_atEnd`: a run that comes to `END`;
* **`ProgramReader.runWithin_reads`**: up to a word, a run depends on the tokens that it has read.
-/

namespace ShaderAssembly

namespace ProgramReader

variable {kind : ProgramKind} {limits : Limits} {r : ProgramReader}

/-! ## Rounds -/

theorem step_of_stopped (h : r.status ≠ .running) : r.step kind limits = r := by
  unfold step
  split
  · exact absurd ‹_› h
  · rfl

theorem runWithin_of_stopped (h : r.status ≠ .running) (bound : Nat) :
    r.runWithin kind limits bound = r := by
  unfold runWithin
  split
  · rfl
  · split
    · exact absurd ‹_› h
    · rfl

theorem runWithin_succ (h : r.status = .running) (bound : Nat) :
    r.runWithin kind limits (bound + 1) = (r.step kind limits).advance.runWithin kind limits bound := by
  rw [runWithin, h]

theorem runWithin_add (a b : Nat) (r : ProgramReader) :
    r.runWithin kind limits (a + b) = (r.runWithin kind limits a).runWithin kind limits b := by
  induction a generalizing r with
  | zero => rw [Nat.zero_add, runWithin]
  | succ a ih =>
    by_cases h : r.status = .running
    · rw [Nat.add_right_comm, runWithin_succ h, runWithin_succ h, ih]
    · rw [runWithin_of_stopped h, runWithin_of_stopped h, runWithin_of_stopped h]

theorem runWithin_eq {a b : Nat} (ha : (r.runWithin kind limits a).status ≠ .running)
    (hb : (r.runWithin kind limits b).status ≠ .running) :
    r.runWithin kind limits a = r.runWithin kind limits b := by
  calc r.runWithin kind limits a
    _ = r.runWithin kind limits (a + b) := by rw [runWithin_add, runWithin_of_stopped ha]
    _ = r.runWithin kind limits (b + a) := by rw [Nat.add_comm]
    _ = r.runWithin kind limits b := by rw [runWithin_add, runWithin_of_stopped hb]

/-! ## Every run stops -/

theorem step_of_statement (hr : r.status = .running) {p : Progress}
    (e : Parse.statementHere kind limits r.progress = .ok true p) :
    r.step kind limits = ⟨p, .running⟩ := by
  rw [step, hr]
  simp only [e]

theorem statement_of_running (h : (r.step kind limits).status = .running) :
    r.status = .running ∧ ∃ p, Parse.statementHere kind limits r.progress = .ok true p ∧
      r.step kind limits = ⟨p, .running⟩ := by
  by_cases hr : r.status = .running
  case neg =>
    rw [step_of_stopped hr] at h
    exact absurd h hr
  refine ⟨hr, ?_⟩
  cases e : Parse.statementHere kind limits r.progress with
  | ok goesOn p =>
    cases goesOn with
    | true => exact ⟨p, rfl, step_of_statement hr e⟩
    | false =>
      rw [step, hr] at h
      simp only [e] at h
      cases h
  | error f p =>
    rw [step, hr] at h
    simp only [e] at h
    cases h

theorem identifier_of_running (h : (r.step kind limits).status = .running) :
    r.current.kind = .identifier := by
  obtain ⟨-, p, e, -⟩ := statement_of_running h
  rw [Parse.statementHere_eq] at e
  change Parse.statementAt kind limits r.current _ = _ at e
  unfold Parse.statementAt at e
  cases hk : r.current.kind with
  | identifier => rfl
  | _ =>
    simp only [hk] at e
    cases e

theorem suffix_of_running (h : (r.step kind limits).status = .running) :
    (r.step kind limits).progress.cursor.rest <:+ r.progress.cursor.rest := by
  obtain ⟨-, p, e, hstep⟩ := statement_of_running h
  rw [hstep]
  exact Parse.IsLocal.suffix e

theorem stopped_of_endOfText (h : r.current.kind = .endOfText) :
    (r.step kind limits).status ≠ .running := fun hrunning => by
  rw [identifier_of_running hrunning] at h
  cases h

/-- A run that is allowed a round for each token, and two more, stops by itself: a statement takes a
token at least, and the end of the text is refused. -/
theorem stopped_runWithin {bound : Nat} (h : r.progress.cursor.rest.length + 2 ≤ bound) :
    (r.runWithin kind limits bound).status ≠ .running := by
  induction bound generalizing r with
  | zero => omega
  | succ bound ih =>
    by_cases hr : r.status = .running
    case neg => rwa [runWithin_of_stopped hr]
    rw [runWithin_succ hr]
    by_cases hs : (r.step kind limits).status = .running
    case neg => rwa [runWithin_of_stopped (r := (r.step kind limits).advance) hs]
    have hle := (suffix_of_running hs).length_le
    cases hrest : (r.step kind limits).progress.cursor.rest with
    | nil =>
      obtain ⟨bound, rfl⟩ : ∃ b, bound = b + 1 := ⟨bound - 1, by omega⟩
      have hend : (r.step kind limits).advance.current.kind = .endOfText := by
        simp [ProgramReader.advance, current, Cursor.advance, Cursor.upcoming, hrest,
          Cursor.endToken, Token.endAt]
      have hstopped : ((r.step kind limits).advance.step kind limits).status ≠ .running :=
        stopped_of_endOfText hend
      rw [runWithin_succ (r := (r.step kind limits).advance) hs,
        runWithin_of_stopped (r := ((r.step kind limits).advance.step kind limits).advance) hstopped]
      exact hstopped
    | cons t ts =>
      refine ih ?_
      simp only [hrest, List.length_cons] at hle
      simp only [ProgramReader.advance, Cursor.advance, hrest, List.tail_cons]
      omega

theorem stopped_run (r : ProgramReader) : (r.run kind limits).status ≠ .running :=
  stopped_runWithin (Nat.le_refl _)

theorem run_eq {bound : Nat} (h : (r.runWithin kind limits bound).status ≠ .running) :
    r.run kind limits = r.runWithin kind limits bound := runWithin_eq (stopped_run r) h

/-! ## The end of a program -/

/-- A reader that stands on the statement `END`. -/
structure AtEnd (r : ProgramReader) : Prop where
  status : r.status = .running
  kind : r.current.kind = .identifier
  text : r.current.text = "END"

theorem step_of_atEnd (h : r.AtEnd) : r.step kind limits = { r with status := .done } := by
  have e : Parse.statementHere kind limits r.progress = .ok false r.progress := by
    rw [Parse.statementHere_eq]
    change Parse.statementAt kind limits r.current r.progress = _
    rw [Parse.statementAt]
    simp only [h.kind, Parse.statement, h.text]
    rfl
  rw [step, h.status]
  simp only [e]

/-- A run that comes to `END` is done, and has read what it had read by then. -/
theorem run_of_atEnd {n : Nat} (h : (r.runWithin kind limits n).AtEnd) :
    (r.run kind limits).status = .done ∧
      (r.run kind limits).progress.draft = (r.runWithin kind limits n).progress.draft := by
  have hrun : r.runWithin kind limits (n + 1) =
      { r.runWithin kind limits n with status := .done }.advance := by
    rw [runWithin_add, runWithin_succ h.status, step_of_atEnd h, runWithin]
  have hstopped : (r.runWithin kind limits (n + 1)).status ≠ .running := by
    rw [hrun]
    exact nofun
  rw [run_eq hstopped, hrun]
  exact ⟨rfl, rfl⟩

/-! ## What a run depends on -/

/-- A reader before other tokens. -/
def withRest (r : ProgramReader) (ts : List Token) : ProgramReader :=
  { r with progress := r.progress.withRest ts }

/-- **A run up to some word depends on the tokens that it has read, and on none behind them.** -/
theorem runWithin_reads {n : Nat} (hs : (r.runWithin kind limits n).status = .running)
    (hk : (r.runWithin kind limits n).current.kind = .identifier) :
    r.current.kind = .identifier ∧
      ∃ used, r.progress.cursor.rest = used ++ (r.runWithin kind limits n).progress.cursor.rest ∧
        ∀ more, (r.withRest (used ++ more)).runWithin kind limits n =
          (r.runWithin kind limits n).withRest more := by
  induction n generalizing r with
  | zero => exact ⟨hk, [], rfl, fun _ => rfl⟩
  | succ n ih =>
    by_cases hr : r.status = .running
    case neg =>
      rw [runWithin_of_stopped hr] at hs
      exact absurd hs hr
    rw [runWithin_succ hr] at hs hk ⊢
    by_cases hstep : (r.step kind limits).status = .running
    case neg =>
      rw [runWithin_of_stopped (r := (r.step kind limits).advance) hstep] at hs
      exact absurd hs hstep
    obtain ⟨hword, used, hused, again⟩ := ih hs hk
    refine ⟨identifier_of_running hstep, ?_⟩
    obtain ⟨-, q, e, hq⟩ := statement_of_running hstep
    rw [hq] at hword hused again ⊢
    -- the word behind the statement is where both lists of tokens still agree
    change q.cursor.upcoming.kind = _ at hword
    change q.cursor.rest.tail = _ at hused
    have hrest := Cursor.rest_of_upcoming (c := q.cursor) (by rw [hword]; exact nofun)
    rw [hused] at hrest
    obtain ⟨first, hfirst, reads'⟩ := Parse.IsLocal.reads e
    refine ⟨first ++ q.cursor.upcoming :: used, by rw [hfirst, hrest]; simp, fun more => ?_⟩
    have hagree : Agree q.cursor.rest (q.cursor.upcoming :: (used ++ more)) :=
      ⟨[], q.cursor.upcoming, _, _, by rw [hword]; exact nofun, hrest, rfl⟩
    rw [List.append_assoc, List.cons_append]
    have hr' : (r.withRest (first ++ q.cursor.upcoming :: (used ++ more))).status = .running := hr
    rw [runWithin_succ hr', step_of_statement hr' (reads' _ hagree)]
    exact again more

end ProgramReader

end ShaderAssembly
