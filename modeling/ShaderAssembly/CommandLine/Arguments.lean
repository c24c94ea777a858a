import ShaderAssembly.ProgramKind
/-!
# Arguments

A command line holds flags, options with values and operands. It is read from the left: a call for
help or for the version ends the reading wherever it stands, and so does the first mistake.

* `Usage`: what may be given;
* `Arguments.take`: what one more argument means;
* `Request.ofArguments`: the request that a command line makes.
-/

namespace ShaderAssembly

/-- What the program is asked to do. -/
inductive Command where
  | translate (file : String) (kind : Option ProgramKind) (output : Option String)
  | describeArchive (file : Option String)
deriving DecidableEq, Repr

/-- A command, and the configuration file to use with it. -/
structure Request where
  config : Option String
  command : Command
deriving DecidableEq, Repr

/-- Why a command line makes no request. -/
inductive ArgumentStop where
  | help
  | version
  | misuse
deriving DecidableEq, Repr

/-- What may be given: flags and options by their names, an option perhaps by a letter too, and so
many operands. -/
structure Usage where
  tellsVersion : Bool := false
  flags : List String := []
  options : List (String × Option Char) := []
  operands : Nat := 0

/-- What was given: `awaiting` is an option whose value comes next, and `closed` says that only
operands follow. -/
structure Arguments where
  flags : List String := []
  values : List (String × String) := []
  operands : List String := []
  awaiting : Option String := none
  closed : Bool := false

namespace Arguments

/-- Whether an argument is no flag or option. A single dash is none. -/
def isOperand (argument : String) : Bool :=
  match argument.toList with
  | '-' :: _ :: _ => false
  | _ => true

/-- The value of an option. -/
def value? (a : Arguments) (name : String) : Option String := a.values.lookup name

/-- A flag is given once at most. -/
def addFlag (a : Arguments) (name : String) : Except ArgumentStop Arguments :=
  if a.flags.contains name then .error .misuse else .ok { a with flags := name :: a.flags }

/-- An option is given once at most, and its value is not empty. -/
def addValue (a : Arguments) (name value : String) : Except ArgumentStop Arguments :=
  if value = "" || (a.value? name).isSome then .error .misuse
  else .ok { a with values := (name, value) :: a.values, awaiting := none }

/-- Operands are not empty, and no more than the usage allows. -/
def addOperand (u : Usage) (a : Arguments) (operand : String) : Except ArgumentStop Arguments :=
  if operand = "" || u.operands ≤ a.operands.length then .error .misuse
  else .ok { a with operands := a.operands ++ [operand] }

/-- A name behind two dashes, with the value behind an equals sign if there is one. -/
def takeName (u : Usage) (a : Arguments) (cs : List Char) : Except ArgumentStop Arguments :=
  let name := String.ofList (cs.takeWhile (· != '='))
  let value := (cs.dropWhile (· != '=')).tail?.map String.ofList
  if (u.options.lookup name).isSome then
    match value with
    | some value => a.addValue name value
    | none => .ok { a with awaiting := some name }
  else if value.isSome then .error .misuse
  else if name = "help" then .error .help
  else if name = "version" && u.tellsVersion then .error .version
  else if u.flags.contains name then a.addFlag name
  else .error .misuse

/-- Letters behind a dash. The first one that stands for an option takes the others as its value,
with or without an equals sign. -/
def takeLetters (u : Usage) (a : Arguments) : List Char → Except ArgumentStop Arguments
  | [] => .ok a
  | c :: cs =>
    match u.options.find? fun o => o.2 == some c with
    | some (name, _) =>
      match cs with
      | [] => .ok { a with awaiting := some name }
      | '=' :: value => a.addValue name (String.ofList value)
      | value => a.addValue name (String.ofList value)
    | none =>
      if c = 'h' then .error .help
      else if c = 'V' && u.tellsVersion then .error .version
      else .error .misuse

/-- One more argument. -/
def take (u : Usage) (a : Arguments) (argument : String) : Except ArgumentStop Arguments :=
  match a.awaiting with
  | some name => if isOperand argument then a.addValue name argument else .error .misuse
  | none =>
    if a.closed || isOperand argument then a.addOperand u argument
    else
      match argument.toList with
      | ['-', '-'] => .ok { a with closed := true }
      | '-' :: '-' :: cs => a.takeName u cs
      | _ :: cs => a.takeLetters u cs
      | [] => .error .misuse

/-- The end of the command line. -/
def finish (a : Arguments) : Except ArgumentStop Arguments :=
  if a.awaiting.isSome then .error .misuse else .ok a

/-- All arguments of a command. -/
def ofList (u : Usage) (arguments : List String) : Except ArgumentStop Arguments := do
  (← arguments.foldlM (take u) {}).finish

end Arguments

namespace Usage

/-- What may stand before the command. -/
def program : Usage where
  tellsVersion := true
  options := [("config", none)]

/-- What a translation takes. -/
def translate : Usage where
  flags := ["vertex", "fragment"]
  options := [("config", none), ("output", some 'o')]
  operands := 1

/-- What a description of an archive takes. -/
def describeArchive : Usage where
  options := [("config", none)]
  operands := 1

end Usage

namespace Command

/-- The names of the commands. -/
def names : List String := ["translate", "psa-info", "help"]

/-- The command to translate, with one file and at most one kind. -/
def translation (a : Arguments) : Except ArgumentStop Command := do
  let vertex := a.flags.contains "vertex"
  let fragment := a.flags.contains "fragment"
  match a.operands with
  | file :: _ =>
    if vertex && fragment then throw .misuse
    let kind := if vertex then some .vertex else if fragment then some .fragment else none
    return .translate file kind (a.value? "output")
  | [] => throw .misuse

end Command

namespace Request

/-- A call for help names one command at most. -/
def ofHelp : List String → Except ArgumentStop Request
  | [] => .error .help
  | [name] => .error (if Command.names.contains name then .help else .misuse)
  | _ => .error .misuse

/-- The request of a command and its arguments. A configuration file given with the command counts
more than one given before it. -/
def ofCommand (config : Option String) (name : String) (arguments : List String) :
    Except ArgumentStop Request :=
  match name with
  | "translate" => do
    let a ← Arguments.ofList .translate arguments
    return { config := (a.value? "config").or config, command := ← Command.translation a }
  | "psa-info" => do
    let a ← Arguments.ofList .describeArchive arguments
    return { config := (a.value? "config").or config, command := .describeArchive a.operands.head? }
  | "help" => ofHelp arguments
  | _ => .error .misuse

/-- The request of a command line, where `a` stands before the rest of it. Its first operand is the
name of the command. -/
def ofArgumentsAfter (a : Arguments) : List String → Except ArgumentStop Request
  | [] => .error .misuse
  | argument :: rest =>
    if a.awaiting.isNone && !a.closed && Arguments.isOperand argument then
      ofCommand (a.value? "config") argument rest
    else do ofArgumentsAfter (← a.take .program argument) rest

/-- The request of a command line. -/
def ofArguments (arguments : List String) : Except ArgumentStop Request :=
  ofArgumentsAfter {} arguments

end Request

end ShaderAssembly
