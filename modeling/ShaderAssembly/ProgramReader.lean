import ShaderAssembly.Diagnostic
import ShaderAssembly.Statement.Declaration
import ShaderAssembly.Statement.Instruction
/-!
# Reading programs

* `ProgramReader.step`: reads the statement at the current token;
* `ProgramReader.run`: reads statements until the program ends or one of them is refused;
* `ProgramReader.finish`: the program, or why there is none.

A statement that is accepted leaves the cursor on its semicolon.
-/

namespace ShaderAssembly

namespace Parse

variable (kind : ProgramKind) (limits : Limits)

/-- Reads the statement that a word opens; says whether the program goes on behind it. -/
def statement (word : Token) : Parse Bool := do
  match word.text with
  | "END" => return false
  | "OPTION" => option kind word
  | "TEMP" => registers limits .temporary
  | "ADDRESS" =>
    if kind != .vertex then refuse .addressInFragment word.offset
    registers limits .address
  | "ATTRIB" => attrib kind limits
  | "PARAM" => param limits
  | "OUTPUT" => output kind limits
  | "ALIAS" => secondName
  | _ => instruction kind limits word
  return true

/-- Reads the statement at the current token; says whether the program goes on behind it. -/
def statementHere : Parse Bool := do
  let t := (← get).cursor.current
  match t.kind with
  | .endOfText => refuse .missingEnd t.offset
  | .identifier => statement kind limits t
  | _ => Scan.unexpected "a statement" t

end Parse

/-- Whether a program has been read to its end, or only until something was refused. -/
inductive ReadStatus where
  | running
  | done
  | failed (fault : Fault)
deriving DecidableEq, Inhabited

/-- A program that is being read. -/
structure ProgramReader where
  progress : Progress
  status : ReadStatus := .running

namespace ProgramReader

/-- A reader that stands on the first significant token at or behind byte `start`. -/
def ofSource (source : String) (start : Nat) : ProgramReader where
  progress := { cursor := .ofSource source start, draft := {} }

/-- The token under the cursor. -/
def current (r : ProgramReader) : Token := r.progress.cursor.current

/-- The reader on the next significant token. -/
def advance (r : ProgramReader) : ProgramReader :=
  { r with progress := { r.progress with cursor := r.progress.cursor.advance } }

variable (kind : ProgramKind) (limits : Limits)

/-- Reads the statement at the current token. Behind the end, or once something was refused, nothing
is read any more. -/
def step (r : ProgramReader) : ProgramReader :=
  match r.status with
  | .running =>
    match Parse.statementHere kind limits r.progress with
    | .ok true p => { progress := p }
    | .ok false p => { progress := p, status := .done }
    | .error fault p => { progress := p, status := .failed fault }
  | _ => r

/-- Reads at most `bound` statements. -/
def runWithin : Nat → ProgramReader → ProgramReader
  | 0, r => r
  | bound + 1, r =>
    match r.status with
    | .running => runWithin bound (r.step kind limits).advance
    | _ => r

/-- Reads statements until the program ends or one of them is refused. Each takes a token at least,
and the end of the text is refused as a statement, so there are at most as many as tokens, and two
more. -/
def run (r : ProgramReader) : ProgramReader :=
  runWithin kind limits (r.progress.cursor.rest.length + 2) r

/-- The program that was read, or why there is none. -/
def finish (r : ProgramReader) : Except TranslationError Model :=
  match r.status with
  | .done => .ok (r.progress.draft.toModel kind)
  | .failed fault => .error (.malformed fault.cause.message fault.offset)
  | .running => .error (.resource "parser did not reach END")

end ProgramReader

end ShaderAssembly
