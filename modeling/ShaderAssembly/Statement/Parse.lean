import ShaderAssembly.Draft
import ShaderAssembly.Statement.Scan
/-!
# Parsing

Steps that read tokens and add to a draft. A step that fails keeps what it has added.

* `Parse.edit`: a change of the draft that can be refused;
* `Parse.resolve`: the variable of a name.
-/

namespace ShaderAssembly

/-- A cursor and the draft of what has been read. -/
structure Progress where
  cursor : Cursor
  draft : Draft

/-- A step that reads tokens and adds to a draft. -/
abbrev Parse := EStateM Fault Progress

/-- A scan as a step that leaves the draft as it is. -/
def Scan.toParse {α : Type} (scan : Scan α) : Parse α := fun p =>
  match scan p.cursor with
  | .ok a c => .ok a { p with cursor := c }
  | .error e c => .error e { p with cursor := c }

instance : MonadLift Scan Parse := ⟨Scan.toParse⟩

namespace Parse

/-- Refuses for a cause, to be blamed on byte `offset`. -/
def refuse {α : Type} (cause : Cause) (offset : Nat) : Parse α := throw ⟨cause, offset⟩

/-- The draft so far. -/
def draft : Parse Draft := return (← get).draft

/-- Changes the draft; a refusal is blamed on byte `offset`. -/
def edit (change : Draft → Except Cause Draft) (offset : Nat) : Parse Unit := do
  match change (← draft) with
  | .ok d => modify fun p => { p with draft := d }
  | .error cause => refuse cause offset

/-- The variable that a word stands for, with its place. -/
def resolve (name : Token) : Parse (Nat × Variable) := do
  match (← draft).lookup? name.text with
  | some v => return v
  | none => refuse (.undeclared name.text) name.offset

/-- The place of the implicit variable of a binding that starts at byte `start` and ends with the
current token. The variable is added unless there is one. -/
def implicit (kind : VariableKind) (start : Nat) : Parse Nat := do
  let p ← get
  match p.draft.implied? kind with
  | some i => return i
  | none =>
    set { p with draft := p.draft.imply (p.cursor.textFrom start) kind start }
    return p.draft.vars.length

end Parse

end ShaderAssembly
