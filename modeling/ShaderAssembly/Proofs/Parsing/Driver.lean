import ShaderAssembly.Proofs.Parsing.Extent
import ShaderAssembly.Proofs.Parsing.Text
/-!
# Reading token by token

Between two statements stand blanks and line ends. A driver that goes through all tokens calls the
reader for each of them, and the reader passes over those.

* `Driver.call`, `Driver.after`: one call, and a loop of calls while the reader runs;
* `Driver.Aligned`, `Driver.aligned_call`: the reader stands on the first significant token of those
  that the driver has left;
* **`Driver.stopped_after`**: the loop stops after no more calls than there are tokens, and one more;
* `Driver.reader_after`: it leaves the reader as the run over the significant tokens does.
-/

namespace ShaderAssembly

/-- The tokens behind the first `n` significant ones. -/
def Token.behind : Nat → List Token → List Token
  | 0, ts => ts
  | _ + 1, [] => []
  | n + 1, t :: ts => if t.isTrivia then behind (n + 1) ts else behind n ts

theorem Token.filter_behind (n : Nat) (ts : List Token) :
    (behind n ts).filter (!·.isTrivia) = (ts.filter (!·.isTrivia)).drop n := by
  fun_induction behind n ts with
  | case1 => rfl
  | case2 => rfl
  | case3 n t ts h ih => rw [ih, List.filter_cons_of_neg (by simp [h])]
  | case4 n t ts h ih => rw [ih, List.filter_cons_of_pos (by simp [h]), List.drop_succ_cons]

theorem Token.length_behind_le (n : Nat) (ts : List Token) : (behind n ts).length ≤ ts.length := by
  fun_induction behind n ts with
  | case1 => exact Nat.le_refl _
  | case2 => exact Nat.le_refl _
  | case3 n t ts _ ih => exact Nat.le_succ_of_le ih
  | case4 n t ts _ ih => exact Nat.le_succ_of_le ih

/-- A reader, and all tokens from the current one on, blanks included. -/
structure Driver where
  tokens : List Token
  reader : ProgramReader

namespace Driver

/-- The driver behind a signature and the blank that follows it. -/
def ofSource (source : String) (start : Nat) : Driver where
  tokens := (Token.ofSource source start).tail
  reader := .ofSource source start

variable (kind : ProgramKind) (limits : Limits)

/-- Calls the reader for the current token, and moves on to the token behind the last one that was
read. For blanks the reader has nothing to do. -/
def call (d : Driver) : Driver :=
  match d.tokens with
  | [] => { d with reader := (d.reader.step kind limits).advance }
  | t :: ts =>
    if t.isTrivia then { d with tokens := ts }
    else
      let r := d.reader.step kind limits
      let used := d.reader.progress.cursor.rest.length - r.progress.cursor.rest.length
      { tokens := Token.behind used ts, reader := r.advance }

/-- Calls the reader while it runs, at most `n` times. -/
def after : Nat → Driver → Driver
  | 0, d => d
  | n + 1, d =>
    match d.reader.status with
    | .running => after n (d.call kind limits)
    | _ => d

variable {kind limits} {d : Driver}

theorem after_succ (h : d.reader.status = .running) (n : Nat) :
    d.after kind limits (n + 1) = (d.call kind limits).after kind limits n := by
  rw [after, h]

theorem after_of_stopped (h : d.reader.status ≠ .running) (n : Nat) : d.after kind limits n = d := by
  unfold after
  split
  · rfl
  · split
    · exact absurd ‹_› h
    · rfl

/-! ## The loop stops -/

/-- The reader stands on the first significant token of those that are left. -/
def Aligned (d : Driver) : Prop :=
  ∃ c : Cursor, c.rest = d.tokens.filter (!·.isTrivia) ∧ d.reader.progress.cursor = c.advance

theorem aligned_ofSource {source : String} {start : Nat} (h : isFramed source start = true) :
    Aligned (ofSource source start) := by
  obtain ⟨blank, ts, e, hblank⟩ := exists_of_isFramed h
  refine ⟨_, ?_, rfl⟩
  simp only [ofSource, e, List.tail_cons]
  exact List.filter_cons_of_neg (by simp [hblank])

theorem aligned_call (h : d.Aligned) (hs : (d.call kind limits).reader.status = .running) :
    (d.call kind limits).Aligned ∧ (d.call kind limits).tokens.length < d.tokens.length := by
  obtain ⟨c, hc, hcursor⟩ := h
  unfold call at hs ⊢
  cases htokens : d.tokens with
  | nil =>
    rw [htokens] at hc
    simp only [htokens] at hs
    have hend : d.reader.current.kind = .endOfText := by
      rw [ProgramReader.current, hcursor]
      simp [Cursor.advance, Cursor.upcoming, hc, Cursor.endToken, Token.endAt]
    exact absurd hs (ProgramReader.stopped_of_endOfText hend)
  | cons t ts =>
    rw [htokens] at hc
    simp only [htokens] at hs
    dsimp only
    by_cases ht : t.isTrivia = true
    · rw [if_pos ht]
      rw [List.filter_cons_of_neg (by simp [ht])] at hc
      exact ⟨⟨c, hc, hcursor⟩, Nat.lt_succ_self _⟩
    · rw [if_neg ht] at hs ⊢
      have hrest : d.reader.progress.cursor.rest = ts.filter (!·.isTrivia) := by
        rw [hcursor, Cursor.advance, hc, List.filter_cons_of_pos (by simp [ht]), List.tail_cons]
      have hsuffix := List.suffix_iff_eq_drop.1 (ProgramReader.suffix_of_running hs)
      refine ⟨⟨_, ?_, rfl⟩, Nat.lt_succ_of_le (Token.length_behind_le _ ts)⟩
      rw [Token.filter_behind, ← hrest]
      exact hsuffix

/-- **The loop stops after as many calls as there are tokens, and one more.** -/
theorem stopped_after (h : d.Aligned) {n : Nat} (hn : d.tokens.length < n) :
    (d.after kind limits n).reader.status ≠ .running := by
  induction n generalizing d with
  | zero => omega
  | succ n ih =>
    by_cases hr : d.reader.status = .running
    case neg => rwa [after_of_stopped hr]
    rw [after_succ hr]
    by_cases hs : (d.call kind limits).reader.status = .running
    case neg => rwa [after_of_stopped hs]
    obtain ⟨haligned, hlt⟩ := aligned_call h hs
    exact ih haligned (by omega)

/-! ## The same reader -/

theorem exists_runWithin_eq (d : Driver) (n : Nat) :
    ∃ k, (d.after kind limits n).reader = d.reader.runWithin kind limits k := by
  induction n generalizing d with
  | zero => exact ⟨0, rfl⟩
  | succ n ih =>
    by_cases hr : d.reader.status = .running
    case neg => exact ⟨0, by rw [after_of_stopped hr, ProgramReader.runWithin]⟩
    rw [after_succ hr]
    obtain ⟨k, hk⟩ := ih (d.call kind limits)
    have hcall : (d.call kind limits).reader = d.reader ∨
        (d.call kind limits).reader = (d.reader.step kind limits).advance := by
      unfold call
      split
      · exact .inr rfl
      · split
        · exact .inl rfl
        · exact .inr rfl
    rw [hk]
    obtain h | h := hcall
    · exact ⟨k, by rw [h]⟩
    · exact ⟨k + 1, by rw [h, ProgramReader.runWithin_succ hr]⟩

theorem reader_after {n : Nat} (h : (d.after kind limits n).reader.status ≠ .running) :
    (d.after kind limits n).reader = d.reader.run kind limits := by
  obtain ⟨k, hk⟩ : ∃ k, (d.after kind limits n).reader = d.reader.runWithin kind limits k :=
    exists_runWithin_eq d n
  rw [hk] at h ⊢
  exact (ProgramReader.run_eq h).symm

/-- **Behind a signature and a blank, the loop stops after at most as many calls as there are bytes**,
and leaves the reader as the run does. -/
theorem reader_ofSource {source : String} {start : Nat}
    (h : Header.classify source kind = .ok start) (hframed : isFramed source start = true) :
    ((ofSource source start).after kind limits (source.utf8ByteSize - start)).reader =
      (ProgramReader.ofSource source start).run kind limits := by
  refine reader_after (stopped_after (aligned_ofSource hframed) ?_)
  have hlength := Token.length_ofSource h
  obtain ⟨blank, ts, e, -⟩ := exists_of_isFramed hframed
  simp only [ofSource, e, List.tail_cons, List.length_cons] at hlength ⊢
  omega

end Driver

end ShaderAssembly
