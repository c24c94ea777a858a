import ShaderAssembly.Toml.Data
/-!
# Documents as trees

* `Toml.Node`, `Toml.Entries`: what a document holds while it is read;
* `Toml.Entries.insert?`: a value under a key with points in it;
* `Toml.Entries.openTable?`, `Toml.Entries.openItem?`: what a header adds;
* `Toml.Entries.changeAt?`: a change of the table that a header named.

No key gets two values and no table is opened twice. `Toml.TableOrigin` keeps what that depends on.
-/

namespace ShaderAssembly

namespace Toml

/-- How a table came about: by a header of its own, by the header of a table below it, by a key with
points, or whole, between braces. -/
inductive TableOrigin where
  | header
  | parent
  | dotted
  | braces
deriving DecidableEq, Repr

/-- What stands under a key. Tables under one repeated header are kept in order. -/
inductive Node where
  | scalar (s : Scalar)
  | list (items : List Node)
  | table (origin : TableOrigin) (entries : List (String × Node))
  | tables (items : List (List (String × Node)))
deriving Repr

/-- The contents of a table. -/
abbrev Entries := List (String × Node)

/-- Whether a key with points may lead through a table, and in particular whether it may put its
value right there. -/
def TableOrigin.admitsDotted (direct : Bool) : TableOrigin → Bool
  | dotted => true
  | parent => !direct
  | header => false
  | braces => false

/-- A list with its last item changed. -/
def changeLast? {α : Type} (f : α → Option α) : List α → Option (List α)
  | [] => none
  | [a] => (f a).map fun a => [a]
  | a :: as => (changeLast? f as).map fun as => a :: as

namespace Entries

/-- What stands under a name. -/
def get? (t : Entries) (name : String) : Option Node :=
  match t with
  | [] => none
  | (key, node) :: rest => if key = name then some node else get? rest name

/-- The entries with what stands under a name, or nothing, replaced by what `f` makes of it. -/
def alter? (name : String) (f : Option Node → Option Node) : Entries → Option Entries
  | [] => (f none).map fun node => [(name, node)]
  | (key, node) :: rest =>
    if key = name then (f (some node)).map fun node => (key, node) :: rest
    else (alter? name f rest).map fun rest => (key, node) :: rest

/-- The entries with a value under a key, whose parts name the tables on the way to it. -/
def insert? (value : Node) : List String → Entries → Option Entries
  | [], _ => none
  | name :: path, t =>
    alter? name (fun
      | none => if path.isEmpty then some value else (insert? value path []).map (.table .dotted)
      | some (.table origin inner) =>
        if path.isEmpty || !origin.admitsDotted (path.length == 1) then none
        else (insert? value path inner).map (.table origin)
      | some (.tables items) =>
        if path.length ≤ 1 then none else (changeLast? (insert? value path) items).map .tables
      | some _ => none) t

/-- The entries with the table at a path changed. Missing tables on the way are made, and of tables
under a repeated header the last one is meant. -/
def changeAt? (f : Entries → Option Entries) : List String → Entries → Option Entries
  | [], t => f t
  | name :: path, t =>
    alter? name (fun
      | none => (changeAt? f path []).map (.table .parent)
      | some (.table .braces _) => none
      | some (.table origin inner) => (changeAt? f path inner).map (.table origin)
      | some (.tables items) => (changeLast? (changeAt? f path) items).map .tables
      | some _ => none) t

/-- The entries with a table opened by its header. It may be there already for the tables below
it. -/
def openTable? (name : String) : Entries → Option Entries :=
  alter? name fun
    | none => some (.table .header [])
    | some (.table .parent inner) => some (.table .header inner)
    | some _ => none

/-- The entries with one more table under a repeated header. -/
def openItem? (name : String) : Entries → Option Entries :=
  alter? name fun
    | none => some (.tables [[]])
    | some (.tables items) => some (.tables (items ++ [[]]))
    | some _ => none

end Entries

end Toml

end ShaderAssembly
