import ShaderAssembly.ProgramReader
/-!
# Traces

A trace shows what each statement of a program has added, also one that was refused part of the way.
-/

namespace ShaderAssembly

/-- What one step of a reader did: the tokens before and after it, its outcome, the variables and
instructions that it added, and the features noted so far. -/
structure TraceEntry where
  start : Token
  stop : Token
  status : ReadStatus
  vars : List Variable
  instructions : List Instruction
  special : SpecialCases

namespace ProgramReader

variable (kind : ProgramKind) (limits : Limits)

/-- The entry for the step from `r` to `r'`. -/
def entry (r r' : ProgramReader) : TraceEntry where
  start := r.current
  stop := r'.current
  status := r'.status
  vars := r'.progress.draft.vars.drop r.progress.draft.vars.length
  instructions := r'.progress.draft.instructions.drop r.progress.draft.instructions.length
  special := r'.progress.draft.special

/-- Whether nothing stands between the current token of `r` and the next one. -/
def touchesNext (r : ProgramReader) : Bool := r.advance.current.offset == r.current.stop

/-- Traces at most `bound` steps, and the reader behind them. After the end, or a refusal, one more
step shows that nothing changes any more, if the next token directly follows. -/
def trace (touching : Bool) : Nat → ProgramReader → List TraceEntry × ProgramReader
  | 0, r => ([], r)
  | bound + 1, r =>
    match r.status with
    | .running =>
      let r' := r.step kind limits
      let (entries, last) := trace r'.touchesNext bound r'.advance
      (entry r r' :: entries, last)
    | _ => (if touching then [entry r (r.step kind limits)] else [], r)

end ProgramReader

end ShaderAssembly
