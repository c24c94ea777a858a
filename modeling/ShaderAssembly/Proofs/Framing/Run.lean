import ShaderAssembly.Proofs.Framing.Statement
import ShaderAssembly.Proofs.Parsing.Extent
import ShaderAssembly.Proofs.Parsing.Program
import ShaderAssembly.Proofs.Parsing.Text
/-!
# Programs as lists of statements

A program that is accepted has been read statement by statement, and the statements are what stands
between its semicolons.

* `Token.terminates_of_mem_ofSource`: a semicolon of a text is the character `;`;
* `Token.statements`: the statements of a list of tokens, up to `END`;
* `Parse.Accepts`: a statement that has been read from behind its first word up to its semicolon;
* **`progress_of_readProgram`**, `invariant_of_readProgram`: what every accepted statement preserves
  holds at the end of a program, for the statements of its text.
-/

namespace ShaderAssembly

/-! ## Semicolons -/

namespace Lexeme

theorem numberKind_ne_semicolon (isWhole : Bool) (text : List Char) :
    numberKind isWhole text ≠ .semicolon := by
  unfold numberKind
  split
  · simp
  · split <;> simp

theorem eq_of_punctuation {c : Char} (h : punctuation c = .semicolon) : c = ';' := by
  unfold punctuation at h
  split at h <;> first | rfl | cases h

theorem scan_semicolon (c : Char) (cs : List Char) (h : (scan c cs).kind = .semicolon) :
    (scan c cs).text = [';'] := by
  have number (cs : List Char) : (scanNumber cs).kind ≠ .semicolon := by
    simp only [scanNumber]
    split
    · simp
    · exact numberKind_ne_semicolon _ _
  revert h
  unfold scan
  split
  · simp
  split
  · simp
  split
  · simp
  split
  · simp
  split
  · simp
  split
  · exact fun h => absurd h (number _)
  split
  · simp
  · exact fun h => by rw [eq_of_punctuation h]

end Lexeme

namespace Token

theorem terminates_of_mem_scanFrom {offset : Nat} {cs : List Char} {t : Token}
    (h : t ∈ scanFrom offset cs) (hkind : t.kind = .semicolon) : t.Terminates := by
  fun_induction scanFrom offset cs with
  | case1 => cases h
  | case2 offset c cs lexeme ih =>
    cases h with
    | head => exact ⟨hkind, by simp [lexeme, Lexeme.scan_semicolon c cs hkind]⟩
    | tail _ h => exact ih h

theorem terminates_of_mem_ofSource {source : String} {start : Nat} {t : Token}
    (h : t ∈ ofSource source start) (hkind : t.kind = .semicolon) : t.Terminates :=
  terminates_of_mem_scanFrom h hkind

/-! ## Statements -/

/-- The statements of a list of tokens that stands behind the tokens of an unfinished one. -/
def statementsFrom (opened : List Token) : List Token → List (List Token)
  | [] => []
  | t :: ts =>
    if opened.isEmpty && t.text == "END" then []
    else if t.kind = .semicolon then opened :: statementsFrom [] ts
    else statementsFrom (opened ++ [t]) ts

/-- The statements of a list of tokens: what stands before each semicolon, up to the statement that
`END` opens. -/
def statements : List Token → List (List Token) := statementsFrom []

theorem statements_of_end {t : Token} (h : t.text = "END") (ts : List Token) :
    statements (t :: ts) = [] := by
  simp [statements, statementsFrom, h]

theorem statementsFrom_append {opened run ts : List Token} {stop : Token} (hopened : opened ≠ [])
    (hrun : ∀ t ∈ run, t.kind ≠ .semicolon) (hstop : stop.kind = .semicolon) :
    statementsFrom opened (run ++ stop :: ts) = (opened ++ run) :: statements ts := by
  induction run generalizing opened with
  | nil => simp [statementsFrom, statements, hopened, hstop]
  | cons t run ih =>
    obtain ⟨ht, hrun⟩ := List.forall_mem_cons.1 hrun
    rw [List.cons_append, statementsFrom, if_neg (by simp [hopened]), if_neg ht,
      ih (by simp) hrun, List.append_assoc, List.singleton_append]

/-- A word but `END` opens a statement, which goes up to the first semicolon. -/
theorem statements_append {word stop : Token} {run ts : List Token} (hword : word.kind = .identifier)
    (hend : word.text ≠ "END") (hrun : ∀ t ∈ run, t.kind ≠ .semicolon)
    (hstop : stop.kind = .semicolon) :
    statements (word :: run ++ stop :: ts) = (word :: run) :: statements ts := by
  rw [statements, List.cons_append, statementsFrom, if_neg (by simp [hend]), if_neg (by simp [hword]),
    List.nil_append, statementsFrom_append (by simp) hrun hstop, List.singleton_append, statements]

end Token

/-! ## Runs -/

variable {kind : ProgramKind} {limits : Limits}

/-- A statement that has been accepted, from its first word up to its semicolon. -/
structure Parse.Accepts (kind : ProgramKind) (limits : Limits) (p : Progress) (run : List Token)
    (q : Progress) : Prop where
  step : openedBy kind limits p.cursor.current p = .ok () q
  word : p.cursor.current.kind = .identifier
  notEnd : p.cursor.current.text ≠ "END"
  rest : p.cursor.rest = run ++ q.cursor.current :: q.cursor.rest
  inside : ∀ t ∈ run, t.kind ≠ .semicolon
  stop : q.cursor.current.kind = .semicolon

namespace Parse

theorem exists_accepts {p q : Progress} (hlexed : ∀ t ∈ p.cursor.rest, t.kind = .semicolon → t.Terminates)
    (e : statementHere kind limits p = .ok true q) : ∃ run, Accepts kind limits p run q := by
  obtain ⟨hword, hend, hstep⟩ := statementHere_eq_ok kind limits e
  obtain ⟨run, hrest, hinside, hstop⟩ := Closes.reads hstep
  refine ⟨run, hstep, hword, hend, hrest, fun t ht hkind => ?_, hstop⟩
  have hmem : t ∈ p.cursor.rest := by
    change t ∈ (Reading.cursor p).rest
    rw [hrest]
    exact List.mem_append_left _ ht
  exact hinside t ht (hlexed t hmem hkind)

theorem Accepts.wellFormed {p q : Progress} {run : List Token} (h : Accepts kind limits p run q)
    (hw : p.draft.WellFormed kind limits) : q.draft.WellFormed kind limits := by
  have e : statement kind limits p.cursor.current p = .ok true q := by
    rw [statement_eq, if_neg h.notEnd]
    exact bind_eq_ok.2 ⟨(), q, h.step, rfl⟩
  have hkeeps := statement_keeps p.cursor.current p (.refl p.draft) hw
  rw [e] at hkeeps
  exact hkeeps.2.1

end Parse

namespace ProgramReader

variable {bound : Nat} {r : ProgramReader}

/-- A reader that will be done stands on `END` or before a statement that is accepted. -/
theorem atEnd_or_accepts (hr : r.status = .running)
    (hlexed : ∀ t ∈ r.progress.cursor.rest, t.kind = .semicolon → t.Terminates)
    (hdone : (r.runWithin kind limits (bound + 1)).status = .done) :
    r.AtEnd ∨ ∃ run q, Parse.Accepts kind limits r.progress run q ∧
      r.step kind limits = ⟨q, .running⟩ := by
  rw [runWithin_succ hr] at hdone
  cases e : Parse.statementHere kind limits r.progress with
  | error fault p =>
    have hfailed : r.step kind limits = ⟨p, .failed fault⟩ := by
      rw [step, hr]
      simp only [e]
    rw [hfailed, runWithin_of_stopped (by simp [ProgramReader.advance])] at hdone
    cases hdone
  | ok goesOn q =>
    cases goesOn with
    | false =>
      obtain ⟨hword, hend, -⟩ := Parse.statementHere_eq_ok kind limits e
      exact .inl ⟨hr, hword, hend⟩
    | true =>
      obtain ⟨run, h⟩ := Parse.exists_accepts hlexed e
      exact .inr ⟨run, q, h, step_of_statement hr e⟩

theorem identifier_of_done (hr : r.status = .running)
    (hlexed : ∀ t ∈ r.progress.cursor.rest, t.kind = .semicolon → t.Terminates)
    (hdone : (r.runWithin kind limits bound).status = .done) : r.current.kind = .identifier := by
  cases bound with
  | zero =>
    rw [runWithin, hr] at hdone
    cases hdone
  | succ bound =>
    obtain h | ⟨run, q, h, -⟩ := atEnd_or_accepts hr hlexed hdone
    · exact h.kind
    · exact h.word

variable {I : Progress → List (List Token) → Prop}

/-- What every accepted statement and every move preserve holds at the end of a run. -/
theorem invariant_of_runWithin
    (hstep : ∀ p q run ss, Parse.Accepts kind limits p run q →
      (∀ t ∈ p.cursor.rest, t.kind = .semicolon → t.Terminates) → I p ss →
        I q (ss ++ [p.cursor.current :: run]))
    (hadvance : ∀ p ss, I p ss → I { p with cursor := p.cursor.advance } ss)
    {ss : List (List Token)} (hr : r.status = .running)
    (hlexed : ∀ t ∈ r.progress.cursor.rest, t.kind = .semicolon → t.Terminates)
    (hdone : (r.runWithin kind limits bound).status = .done) (hI : I r.progress ss) :
    I (r.runWithin kind limits bound).progress
      (ss ++ Token.statements (r.progress.cursor.current :: r.progress.cursor.rest)) := by
  induction bound generalizing r ss with
  | zero =>
    rw [runWithin, hr] at hdone
    cases hdone
  | succ bound ih =>
    obtain hend | ⟨run, q, h, hq⟩ := atEnd_or_accepts hr hlexed hdone
    · have htext : r.progress.cursor.current.text = "END" := hend.text
      rw [runWithin_succ hr, step_of_atEnd hend, runWithin_of_stopped (by simp [ProgramReader.advance]),
        Token.statements_of_end htext, List.append_nil]
      exact hadvance _ _ hI
    · rw [runWithin_succ hr, hq] at hdone ⊢
      have hlexed' : ∀ t ∈ q.cursor.rest.tail, t.kind = .semicolon → t.Terminates := by
        intro t ht
        refine hlexed t ?_
        rw [h.rest]
        simp [List.mem_of_mem_tail ht]
      -- the word behind the semicolon is there, so the next statements start with it
      have hnext : q.cursor.upcoming.kind = .identifier := identifier_of_done rfl hlexed' hdone
      have hrest := Cursor.rest_of_upcoming (c := q.cursor) (by simp [hnext])
      have hstatements :
          Token.statements (r.progress.cursor.current :: run ++ q.cursor.current :: q.cursor.rest) =
            (r.progress.cursor.current :: run) :: Token.statements q.cursor.rest :=
        Token.statements_append h.word h.notEnd h.inside h.stop
      rw [List.cons_append, ← h.rest, hrest] at hstatements
      have hI' : I _ _ :=
        ih rfl hlexed' hdone (hadvance _ _ (hstep r.progress q run ss h hlexed hI))
      rw [List.append_assoc] at hI'
      rw [hstatements]
      exact hI'

end ProgramReader

/-- **What every accepted statement and every move preserve holds at the end of an accepted
program**, for the statements of its text. -/
theorem progress_of_readProgram {settings : TranslatorSettings} {source : String} {m : Model}
    {I : Progress → List (List Token) → Prop} (h : readProgram settings source kind = .ok m)
    (hempty : ∀ start, Header.classify source kind = .ok start →
      I { cursor := .ofSource source start, draft := {} } [])
    (hstep : ∀ p q run ss, Parse.Accepts kind (settings.limits kind) p run q →
      (∀ t ∈ p.cursor.rest, t.kind = .semicolon → t.Terminates) → I p ss →
        I q (ss ++ [p.cursor.current :: run]))
    (hadvance : ∀ p ss, I p ss → I { p with cursor := p.cursor.advance } ss) :
    ∃ start p, Header.classify source kind = .ok start ∧ m = p.draft.toModel kind ∧
      I p (Token.statements (Token.significant source start)) := by
  obtain ⟨start, hstart, hframed, hdone⟩ := done_of_readProgram h
  have hm := (readProgram_of_done hstart hframed hdone).symm.trans h
  cases hm
  refine ⟨start, _, hstart, rfl, ?_⟩
  let c : Cursor := ⟨source.toList, Token.endAt start, Token.significant source start⟩
  have hlexed : ∀ t ∈ c.rest.tail, t.kind = .semicolon → t.Terminates := by
    intro t ht
    have hmem : t ∈ Token.significant source start := List.mem_of_mem_tail ht
    exact Token.terminates_of_mem_ofSource (List.mem_filter.1 hmem).1
  have hword : c.upcoming.kind = .identifier :=
    ProgramReader.identifier_of_done (r := .ofSource source start) rfl hlexed hdone
  have htokens : Token.significant source start = c.upcoming :: c.rest.tail :=
    Cursor.rest_of_upcoming (c := c) (by simp [hword])
  rw [htokens]
  exact ProgramReader.invariant_of_runWithin hstep hadvance rfl hlexed hdone (hempty start hstart)

/-- What every accepted statement preserves holds at the end of an accepted program, for the
statements of its text. -/
theorem invariant_of_readProgram {settings : TranslatorSettings} {source : String} {m : Model}
    {I : Draft → List (List Token) → Prop} (h : readProgram settings source kind = .ok m)
    (hempty : I {} [])
    (hstep : ∀ p q run ss, Parse.Accepts kind (settings.limits kind) p run q → I p.draft ss →
      I q.draft (ss ++ [p.cursor.current :: run])) :
    ∃ start d, Header.classify source kind = .ok start ∧ m = d.toModel kind ∧
      I d (Token.statements (Token.significant source start)) := by
  obtain ⟨start, p, hstart, hm, hI⟩ := progress_of_readProgram (I := fun p => I p.draft) h
    (fun _ _ => hempty) (fun p q run ss haccepts _ => hstep p q run ss haccepts) fun _ _ => id
  exact ⟨start, p.draft, hstart, hm, hI⟩

end ShaderAssembly
