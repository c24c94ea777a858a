import Mathlib.Data.List.Basic
import ShaderAssembly.Toml.Data
/-!
# The laws of a library for documents

The code of a library need not be at hand. What is proved about the program then rests on what its
documentation says.

* `Library.Laws`, `Library.Inverts`: what is said about reading, and about writing;
* `Data.at?`, `Data.group`: what stands under a path, and the entries of the table there;
* `Reads`: what is read where data may be missing;
* **`Library.Laws.reads_record`**: a record is read as its fields are, one after the other.
-/

namespace ShaderAssembly.Toml

/-- The record with a field set to what stands under its name in a table, if anything does. -/
def RecordField.update? {α : Type} (entries : List (String × Data)) (a : α) (f : RecordField α) :
    Option α :=
  match entries.lookup f.name with
  | some data => f.set? data a
  | none => some a

/-- What a library says about its readers. -/
structure Library.Laws (library : Library) : Prop where
  word {n : Nat} : n < 0x100000000 → library.word? (.scalar (.integer n)) = some n
  boolean (b : Bool) : library.boolean? (.scalar (.boolean b)) = some b
  text (s : String) : library.text? (.scalar (.text s)) = some s
  /-- A string is the choice of that name. -/
  choice {α : Type} {choices : List (String × α)} {name : String} {a : α} :
    (choices.map Prod.fst).Nodup → (name, a) ∈ choices →
    library.choice? choices (.scalar (.text name)) = some a
  /-- Of a table, each field takes what stands under its name. A missing one keeps its standard
  value, and entries under other names mean nothing. -/
  record {α : Type} (fields : List (RecordField α)) (standard : α) {entries : List (String × Data)} :
    (entries.map Prod.fst).Nodup →
    library.record? fields standard (.table entries) =
      fields.foldlM (RecordField.update? entries) standard

/-- The data are written, and read from what is written. -/
def Library.Inverts (library : Library) (data : Data) : Prop :=
  ∃ text, library.print? data = some text ∧ library.parse? text = some data

/-! ## Places in documents -/

namespace Data

/-- The entries of a table. -/
def entries : Data → List (String × Data)
  | table entries => entries
  | _ => []

/-- The data are a table, in which no name stands twice. -/
def IsTable (data : Data) : Prop :=
  ∃ entries, data = .table entries ∧ (entries.map Prod.fst).Nodup

/-- What stands under a path. -/
def at? (data : Data) : List String → Option Data
  | [] => some data
  | name :: path => (data.entries.lookup name).bind fun inner => inner.at? path

/-- The entries of the table under a path; one that is not there has none. -/
def group (data : Data) (path : List String) : List (String × Data) :=
  ((data.at? path).map entries).getD []

theorem at?_concat (data : Data) (path : List String) (name : String) :
    data.at? (path ++ [name]) = (data.group path).lookup name := by
  induction path generalizing data with
  | nil => exact Option.bind_fun_some _
  | cons first path ih =>
    rw [List.cons_append, at?, group, at?]
    cases data.entries.lookup first with
    | none => rfl
    | some inner => exact ih inner

end Data

/-! ## Reading where data may be missing -/

/-- The value is read from data that were found; without any it is the standard one. -/
def Reads {α : Type} (read : Data → Option α) (standard : α) (found : Option Data) (value : α) :
    Prop :=
  found.elim (value = standard) fun data => read data = some value

section Record

variable {α β : Type} {library : Library} {data : Data} {path : List String}

/-- **A field of a table is set to the value that is read where the field stands.** -/
theorem RecordField.update?_reading {name : String} {read : Data → Option β} {set : α → β → α}
    {a : α} {standard value : β} (h : Reads read standard (data.at? (path ++ [name])) value)
    (hset : set a standard = a) :
    (RecordField.reading name read set).update? (data.group path) a = some (set a value) := by
  rw [Data.at?_concat] at h
  rw [update?]
  dsimp only [reading]
  cases hfound : (data.group path).lookup name with
  | none =>
    rw [hfound] at h
    obtain rfl : value = standard := h
    exact congrArg some hset.symm
  | some inner =>
    rw [hfound] at h
    exact congrArg (Option.map _) h

theorem RecordField.foldlM_cons {name : String} {read : Data → Option β} {set : α → β → α}
    {a : α} {standard value : β} {fields : List (RecordField α)}
    (h : Reads read standard (data.at? (path ++ [name])) value) (hset : set a standard = a) :
    (RecordField.reading name read set :: fields).foldlM (update? (data.group path)) a =
      fields.foldlM (update? (data.group path)) (set a value) := by
  rw [List.foldlM_cons, update?_reading h hset]
  rfl

theorem RecordField.foldlM_update?_nil (fields : List (RecordField α)) (a : α) :
    fields.foldlM (update? []) a = some a := by
  induction fields with
  | nil => rfl
  | cons f fields ih => exact ih

/-- A record in a table is read as its fields are, one after the other. -/
theorem Library.Laws.reads_record (hlaws : library.Laws)
    (htable : ∀ inner, data.at? path = some inner → inner.IsTable) {fields : List (RecordField α)}
    {standard a : α} (h : fields.foldlM (RecordField.update? (data.group path)) standard = some a) :
    Reads (library.record? fields standard) standard (data.at? path) a := by
  rw [Data.group] at h
  cases hfound : data.at? path with
  | none =>
    rw [hfound] at h
    exact Option.some.inj (h.symm.trans (RecordField.foldlM_update?_nil fields standard))
  | some inner =>
    obtain ⟨entries, rfl, hnodup⟩ := htable inner hfound
    rw [hfound] at h
    exact (hlaws.record fields standard hnodup).trans h

end Record

end ShaderAssembly.Toml
