/-!
# Data and the library for them

* `Toml.Scalar`, `Toml.Data`: what a document holds;
* `Toml.RecordField`: a field of a record that is read from a document;
* `Toml.Library`: what the program asks of the library that writes and reads documents.
-/

namespace ShaderAssembly

namespace Toml

/-- A value that holds no other. A number with a point and a point in time keep their text. -/
inductive Scalar where
  | text (s : String)
  | integer (n : Int)
  | boolean (b : Bool)
  | float (literal : String)
  | moment (literal : String)
deriving DecidableEq, Repr

/-- What a document holds. -/
inductive Data where
  | scalar (s : Scalar)
  | list (items : List Data)
  | table (entries : List (String × Data))
deriving Repr

/-- A table of values under their names. -/
def Data.ofScalars (values : List (String × Scalar)) : Data :=
  .table (values.map fun (name, value) => (name, .scalar value))

/-- A field of a record: its name, and the record with the field set to what some data denote. -/
structure RecordField (α : Type) where
  name : String
  set? : Data → α → Option α

/-- The field that takes what `read` makes of data. -/
def RecordField.reading {α β : Type} (name : String) (read : Data → Option β) (set : α → β → α) :
    RecordField α where
  name := name
  set? data a := (read data).map (set a)

/-- What the program asks of the library that writes and reads documents. Every reader says whether
the data are of its kind. -/
structure Library where
  /-- The text of a document. -/
  print? : Data → Option String
  /-- The document in a text. -/
  parse? : String → Option Data
  /-- A whole number of 32 bits. -/
  word? : Data → Option Nat
  boolean? : Data → Option Bool
  text? : Data → Option String
  /-- What is chosen from a list by its name. -/
  choice? {α : Type} : List (String × α) → Data → Option α
  /-- The record of some fields that starts as a standard one. -/
  record? {α : Type} : List (RecordField α) → α → Data → Option α

end Toml

end ShaderAssembly
