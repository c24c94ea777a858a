import ShaderAssembly.Statement.Binding
import ShaderAssembly.Statement.Parse
/-!
# Declarations

* `Parse.option`: `OPTION`;
* `Parse.registers`: `TEMP` and `ADDRESS`;
* `Parse.attrib`, `Parse.output`, `Parse.param`: names for bindings;
* `Parse.secondName`: `ALIAS`.

Each starts behind the word that opens the statement.
-/

namespace ShaderAssembly

/-- The features of a program with one more option. -/
def Draft.setOption (kind : ProgramKind) (name : String) (d : Draft) : Except Cause Draft :=
  let setFog (fog : FogMode) : Except Cause Draft :=
    if d.special.fog = .none then pure { d with special := { d.special with fog } }
    else throw .conflictingFog
  let setPrecision : Except Cause Draft :=
    if d.precisionHint then throw .conflictingPrecision else pure { d with precisionHint := true }
  match kind, name with
  | .vertex, "ARB_position_invariant" =>
    pure { d with special := { d.special with positionInvariant := true } }
  | .fragment, "ARB_fog_exp" => setFog .exp
  | .fragment, "ARB_fog_exp2" => setFog .exp2
  | .fragment, "ARB_fog_linear" => setFog .linear
  | .fragment, "ARB_precision_hint_fastest" => setPrecision
  | .fragment, "ARB_precision_hint_nicest" => setPrecision
  | _, _ => throw (.unknownOption name)

namespace Parse

variable (kind : ProgramKind) (limits : Limits)

/-- Reads an option. Options stand before everything else. -/
def option (start : Token) : Parse Unit := do
  let d ← draft
  if !d.vars.isEmpty || !d.instructions.isEmpty then refuse .lateOption start.offset
  let name ← Scan.word "an option name"
  edit (·.setOption kind name.text) name.offset
  Scan.expect .semicolon "';'"

/-- Reads the names of registers and declares them. Each takes a token at least, so there are fewer
of them than `bound`, one more than the number of tokens left. -/
def registersWithin (variableKind : VariableKind) : Nat → Parse Unit
  | 0 => do Scan.unexpected "',' or ';'" (← Scan.next)
  | bound + 1 => do
    let name ← Scan.word "a register name"
    edit (·.declare limits name.text variableKind name.offset) name.offset
    let t ← Scan.next
    match t.kind with
    | .comma => registersWithin variableKind bound
    | .semicolon => return
    | _ => Scan.unexpected "',' or ';'" t

/-- Reads the names of registers and declares them. -/
def registers (variableKind : VariableKind) : Parse Unit := do
  registersWithin limits variableKind ((← get).cursor.rest.length + 1)

/-- Reads a name for an attribute. -/
def attrib : Parse Unit := do
  let name ← Scan.word "an attribute name"
  Scan.expect .equals "'='"
  let root ← Scan.word "an attribute binding"
  if root.text != "vertex" && root.text != "fragment" then
    Scan.unexpected "a vertex or fragment binding" root
  let binding ← Scan.inputBinding kind limits root
  Scan.expect .semicolon "';'"
  edit (·.declare limits name.text (.input binding) name.offset) name.offset

/-- Reads a name for a result. -/
def output : Parse Unit := do
  let name ← Scan.word "an output name"
  Scan.expect .equals "'='"
  let root ← Scan.word "a result binding"
  if root.text != "result" then Scan.unexpected "a result binding" root
  let binding ← Scan.outputBinding kind limits
  Scan.expect .semicolon "';'"
  edit (·.declare limits name.text (.output binding) name.offset) name.offset

/-- Reads one more name for a variable. -/
def secondName : Parse Unit := do
  let name ← Scan.word "an alias name"
  Scan.expect .equals "'='"
  let target ← Scan.word "an existing name"
  let (i, _) ← resolve target
  Scan.expect .semicolon "';'"
  edit (·.nameAlso name.text i) name.offset

/-- Reads the subscript of an array declaration: the number of elements, unless it is left out. -/
def arraySize : Scan (Option (Located Nat)) := do
  Scan.expect .leftBracket "'['"
  let t ← Scan.next
  match t.kind with
  | .integer n =>
    Scan.expect .rightBracket "']'"
    return some ⟨n, t.offset⟩
  | .rightBracket => return none
  | _ => Scan.unexpected "an array size or ']'" t

/-- Reads the rest of an array of parameters, from its subscript on. -/
def paramArray (name : Token) : Parse Unit := do
  let size ← arraySize
  Scan.expect .equals "'='"
  Scan.expect .leftBrace "'\x7b'"
  let items ← Scan.paramItems limits
  Scan.expect .semicolon "';'"
  match size with
  | some n =>
    if n.value != items.length then
      refuse (.arraySize name.text n.value items.length) n.offset
  | none => pure ()
  if items.isEmpty then refuse .emptyArray name.offset
  edit (·.declare limits name.text (.paramArray items) name.offset) name.offset

/-- Reads a parameter, or an array of them. -/
def param : Parse Unit := do
  let name ← Scan.word "a parameter name"
  if (← Scan.peek).kind == .leftBracket then paramArray limits name
  else
    Scan.expect .equals "'='"
    let item ← Scan.singleParam limits (← Scan.next)
    Scan.expect .semicolon "';'"
    edit (·.declare limits name.text (.param item) name.offset) name.offset

end Parse

end ShaderAssembly
