import ShaderAssembly.Proofs.Toml.Document
import ShaderAssembly.Proofs.Toml.Laws
import ShaderAssembly.Toml.Library
/-!
# The laws of the built-in library

* `RecordData.fill?_named`: a record in a table is read as its fields are, one after the other;
* **`Library.laws_builtIn`**: the built-in library keeps the laws;
* `tableSections?_cons_ofScalars`: a table of values is written under a header of its own;
* `entriesData_scalars`: it is read as that table.
-/

namespace ShaderAssembly.Toml

variable {α : Type}

theorem RecordData.update?_named (entries : List (String × Data)) (a : α) (f : RecordField α)
    (place : Nat) : (named entries).update? a (f, place) = f.update? entries a := rfl

theorem RecordData.fill?_named (entries : List (String × Data)) (fields : List (RecordField α))
    (standard : α) :
    (named entries).fill? fields standard = fields.foldlM (RecordField.update? entries) standard := by
  have hfold (fields : List (RecordField α)) (a : α) (place : Nat) :
      (fields.zipIdx place).foldlM (named entries).update? a =
        fields.foldlM (RecordField.update? entries) a := by
    induction fields generalizing a place with
    | nil => rfl
    | cons f fields ih =>
      rw [List.zipIdx_cons, List.foldlM_cons, List.foldlM_cons, update?_named]
      exact congrArg _ (funext fun a => ih a (place + 1))
  exact hfold fields standard 0

theorem lookup_of_mem {choices : List (String × α)} {name : String} {a : α}
    (hnodup : (choices.map Prod.fst).Nodup) (h : (name, a) ∈ choices) :
    choices.lookup name = some a := by
  obtain ⟨front, back, rfl⟩ := List.append_of_mem h
  refine List.lookup_eq_some_iff.2 ⟨front, back, rfl, fun e he => bne_iff_ne.2 ?_⟩
  rintro rfl
  rw [List.map_append, List.map_cons] at hnodup
  exact (List.nodup_append.1 hnodup).2.2 e.1 (List.mem_map_of_mem he) e.1 List.mem_cons_self rfl

theorem Data.word?_integer {n : Nat} (h : n < 0x100000000) :
    word? (.scalar (.integer n)) = some n := by
  unfold word?
  dsimp only
  rw [if_pos (by omega), Int.toNat_natCast]

theorem Library.laws_builtIn : builtIn.Laws where
  word h := by
    have hword : builtIn.word? = Data.word? := rfl
    rw [hword, Data.word?_integer h]
  boolean _ := rfl
  text _ := rfl
  choice hnodup h := lookup_of_mem hnodup h
  record fields standard _ _ := RecordData.fill?_named _ fields standard

/-! ## Tables of values -/

variable (path : List String) (values : List (String × Scalar)) {name : String}

theorem scalarEntries_ofScalars : scalarEntries (Data.ofScalars values).entries = values := by
  rw [scalarEntries, Data.ofScalars, Data.entries, List.filterMap_map]
  exact List.filterMap_some

theorem tableSections?_ofScalars :
    tableSections? path (Data.ofScalars values).entries = some [] := by
  rw [Data.ofScalars, Data.entries]
  induction values with
  | nil => rfl
  | cons e values ih => exact ih

theorem sections?_ofScalars : (Data.ofScalars values).sections? path = some [⟨path, values⟩] := by
  have htable : Data.ofScalars values = .table (Data.ofScalars values).entries := rfl
  rw [htable, Data.sections?, tableSections?_ofScalars, scalarEntries_ofScalars]
  simp

theorem tableSections?_cons_table (entries rest : List (String × Data)) :
    tableSections? path ((name, .table entries) :: rest) =
      (Data.sections? (path ++ [name]) (.table entries)).bind fun front =>
        (tableSections? path rest).map (front ++ ·) := by
  rw [tableSections?]
  · cases (Data.table entries).sections? (path ++ [name]) with
    | none => rfl
    | some front => cases tableSections? path rest <;> rfl
  · nofun

/-- A table of values is written under a header of its own. -/
theorem tableSections?_cons_ofScalars (rest : List (String × Data)) :
    tableSections? path ((name, .ofScalars values) :: rest) =
      (tableSections? path rest).map (⟨path ++ [name], values⟩ :: ·) := by
  refine (tableSections?_cons_table path (Data.ofScalars values).entries rest).trans ?_
  exact congrArg (Option.bind · _) (sections?_ofScalars (path ++ [name]) values)

theorem entriesData_scalars :
    entriesData (Entries.scalars values) = (Data.ofScalars values).entries := by
  rw [Entries.scalars, Data.ofScalars, Data.entries]
  induction values with
  | nil => rfl
  | cons e values ih =>
    obtain ⟨name, value⟩ := e
    rw [List.map_cons, List.map_cons, entriesData, Node.data, ih]

end ShaderAssembly.Toml
