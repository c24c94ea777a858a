import ShaderAssembly.Toml.Document
/-!
# The built-in library

* `Toml.Node.data`: the data in what was read;
* `Toml.Data.sections?`: the tables in data, under their headers;
* `Toml.RecordData`: what data say about the fields of a record;
* `Toml.Library.builtIn`: the library that the program uses.
-/

namespace ShaderAssembly

namespace Toml

/-! ## Reading -/

mutual

/-- The data in a node. Tables under one repeated header are a list. -/
def Node.data : Node → Data
  | .scalar s => .scalar s
  | .list items => .list (itemsData items)
  | .table _ entries => .table (entriesData entries)
  | .tables items => .list (tablesData items)

/-- The data in the items of a list. -/
def itemsData : List Node → List Data
  | [] => []
  | node :: rest => node.data :: itemsData rest

/-- The data in the entries of a table. -/
def entriesData : List (String × Node) → List (String × Data)
  | [] => []
  | (name, node) :: rest => (name, node.data) :: entriesData rest

/-- The data in tables under one header. -/
def tablesData : List (List (String × Node)) → List Data
  | [] => []
  | entries :: rest => .table (entriesData entries) :: tablesData rest

end

/-! ## Writing -/

/-- The values that stand in a table itself. -/
def scalarEntries (entries : List (String × Data)) : List (String × Scalar) :=
  entries.filterMap fun
    | (name, .scalar value) => some (name, value)
    | _ => none

mutual

/-- The tables in data that stand under a path. One that holds nothing but tables has no header. -/
def Data.sections? (path : List String) : Data → Option (List Section)
  | .table entries => (tableSections? path entries).map fun below =>
    let values := scalarEntries entries
    if values.isEmpty && !below.isEmpty then below else ⟨path, values⟩ :: below
  | _ => none

/-- The tables among the entries of a table. Lists are not written. -/
def tableSections? (path : List String) : List (String × Data) → Option (List Section)
  | [] => some []
  | (_, .scalar _) :: rest => tableSections? path rest
  | (name, data) :: rest => do
    return (← data.sections? (path ++ [name])) ++ (← tableSections? path rest)

end

namespace Data

/-- The text of a document that holds nothing but tables. -/
def print? : Data → Option String
  | table entries =>
    if (scalarEntries entries).isEmpty then (tableSections? [] entries).map Toml.print else none
  | _ => none

/-! ## Single values -/

/-- The whole number of 32 bits that data are. -/
def word? : Data → Option Nat
  | scalar (.integer n) => if 0 ≤ n ∧ n < 0x100000000 then some n.toNat else none
  | _ => none

/-- The truth value that data are. -/
def boolean? : Data → Option Bool
  | scalar (.boolean b) => some b
  | _ => none

/-- The string that data are. -/
def text? : Data → Option String
  | scalar (.text s) => some s
  | _ => none

/-- Whether data are a table or list with nothing in it. -/
def isHollow : Data → Bool
  | table [] => true
  | list [] => true
  | _ => false

/-- What is chosen by its name, or by the one key of a table, with nothing under it. -/
def choice? {α : Type} (choices : List (String × α)) : Data → Option α
  | scalar (.text s) => choices.lookup s
  | table [(name, data)] => if data.isHollow then choices.lookup name else none
  | _ => none

end Data

/-! ## Records -/

/-- What data say about the fields of a record: each under its name, or all in their order. -/
inductive RecordData where
  | named (entries : List (String × Data))
  | listed (items : List Data)

namespace RecordData

/-- The fields in data. A point in time is a record that says nothing. -/
def ofData? : Data → Option RecordData
  | .table entries => some (named entries)
  | .list items => some (listed items)
  | .scalar (.moment _) => some (named [])
  | .scalar _ => none

/-- The data of the field with a name and a place in the order. -/
def get? (r : RecordData) (name : String) (place : Nat) : Option Data :=
  match r with
  | named entries => entries.lookup name
  | listed items => items[place]?

/-- The record with one field set, if there are data for it. -/
def update? {α : Type} (r : RecordData) (a : α) (f : RecordField α × Nat) : Option α :=
  match r.get? f.1.name f.2 with
  | some data => f.1.set? data a
  | none => some a

/-- The record with all fields set for which there are data. -/
def fill? {α : Type} (r : RecordData) (fields : List (RecordField α)) (standard : α) : Option α :=
  fields.zipIdx.foldlM r.update? standard

end RecordData

/-- The library that the program uses. -/
def Library.builtIn : Library where
  print? := Data.print?
  parse? text := (Toml.parse? text).map fun entries => .table (entriesData entries)
  word? := Data.word?
  boolean? := Data.boolean?
  text? := Data.text?
  choice? := Data.choice?
  record? fields standard data := (RecordData.ofData? data).bind fun r => r.fill? fields standard

end Toml

end ShaderAssembly
