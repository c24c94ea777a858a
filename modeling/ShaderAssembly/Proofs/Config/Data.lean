import ShaderAssembly.Proofs.Config.Setting
/-!
# The data of a configuration

* `lookup_presentValues`: values that may be missing are found under their names;
* `Config.IsStorable`: configurations with overrides of 32 bits;
* `Config.takes_data`: the data of a configuration make every setting but the limits that are not
  overridden;
* **`Config.read?_data`**: a configuration is read from its data.
-/

namespace ShaderAssembly

open Toml

/-! ## Values under their names -/

section Present

variable {ι : Type} (key : ι → String) (value : ι → Option Scalar)

theorem presentValues_cons (i : ι) (names : List ι) :
    presentValues key value (i :: names) =
      ((value i).map fun v => (key i, v)).toList ++ presentValues key value names := by
  rw [presentValues, List.filterMap_cons]
  cases value i <;> rfl

theorem map_fst_presentValues_sublist (names : List ι) :
    List.Sublist ((presentValues key value names).map Prod.fst) (names.map key) := by
  induction names with
  | nil => exact List.Sublist.refl _
  | cons i names ih =>
    rw [presentValues_cons, List.map_append, List.map_cons]
    cases value i with
    | none => exact ih.cons _
    | some v => exact ih.cons_cons _

variable {key value}

theorem lookup_presentValues {names : List ι} (hkey : (names.map key).Nodup) {i : ι}
    (hi : i ∈ names) : (presentValues key value names).lookup (key i) = value i := by
  induction names with
  | nil => cases hi
  | cons j names ih =>
    obtain ⟨hnot, hkey⟩ := List.nodup_cons.1 hkey
    rw [presentValues_cons, List.lookup_append]
    obtain rfl | hi := List.mem_cons.1 hi
    · have hrest : (presentValues key value names).lookup (key i) = none := by
        refine List.lookup_eq_none_iff.2 fun e he => bne_iff_ne.2 fun heq => hnot ?_
        rw [heq]
        exact (map_fst_presentValues_sublist key value names).subset (List.mem_map_of_mem he)
      rw [hrest]
      cases value i with
      | none => rfl
      | some v => simp
    · have hne : key i ≠ key j := fun h => hnot (h ▸ List.mem_map_of_mem hi)
      have hhead : (((value j).map fun v => (key j, v)).toList).lookup (key i) = none := by
        cases value j with
        | none => rfl
        | some v => simp [List.lookup_cons, beq_false_of_ne hne]
      rw [hhead, Option.none_or]
      exact ih hkey hi

end Present

namespace Toml.Data

theorem map_fst_entries_ofScalars (values : List (String × Scalar)) :
    (ofScalars values).entries.map Prod.fst = values.map Prod.fst := by
  rw [ofScalars, entries, List.map_map]
  rfl

theorem isTable_ofScalars {values : List (String × Scalar)} (h : (values.map Prod.fst).Nodup) :
    (ofScalars values).IsTable := by
  rw [← map_fst_entries_ofScalars] at h
  exact ⟨_, rfl, h⟩

theorem lookup_entries_ofScalars (values : List (String × Scalar)) (name : String) :
    (ofScalars values).entries.lookup name = (values.lookup name).map .scalar := by
  rw [ofScalars, entries]
  induction values with
  | nil => rfl
  | cons e values ih =>
    obtain ⟨key, value⟩ := e
    rw [List.map_cons, List.lookup_cons, List.lookup_cons, ih]
    cases name == key <;> rfl

end Toml.Data

namespace LimitOverrides

variable (o : LimitOverrides)

theorem nodup_values : (o.values.map Prod.fst).Nodup :=
  (by decide : (LimitName.all.map LimitName.key).Nodup).sublist (map_fst_presentValues_sublist ..)

theorem mem_values {e : String × Scalar} (h : e ∈ o.values) :
    ∃ name n, e = (LimitName.key name, .integer (n : Nat)) ∧ o.get? name = some n := by
  obtain ⟨name, -, he⟩ := List.mem_filterMap.1 h
  obtain ⟨v, hv, rfl⟩ := Option.map_eq_some_iff.1 he
  obtain ⟨n, hn, rfl⟩ := Option.map_eq_some_iff.1 hv
  exact ⟨name, n, rfl, hn⟩

theorem lookup_entries_data (name : LimitName) :
    o.data.entries.lookup name.key = (o.get? name).map fun n : Nat => .scalar (.integer n) := by
  rw [data, Data.lookup_entries_ofScalars, values,
    lookup_presentValues (by decide) name.mem_all, Option.map_map]
  rfl

end LimitOverrides

namespace Config

/-- Every override is a number of 32 bits. -/
def IsStorable (c : Config) : Prop :=
  ∀ kind name n, c.get (.limit kind name) = some n → n < 0x100000000

variable {c : Config}

theorem at?_data_overrides (c : Config) (kind : ProgramKind) :
    c.data.at? ["translator", Setting.tableName kind] = some (c.translator.overrides kind).data := by
  cases kind <;> rfl

theorem at?_data_limit (c : Config) (kind : ProgramKind) (name : LimitName) :
    c.data.at? (Setting.limit kind name).path =
      (c.get (.limit kind name)).map fun n : Nat => .scalar (.integer n) := by
  have hgroup : c.data.group ["translator", Setting.tableName kind] =
      (c.translator.overrides kind).data.entries := by
    rw [Data.group, at?_data_overrides]
    rfl
  refine (Data.at?_concat c.data ["translator", Setting.tableName kind] name.key).trans ?_
  rw [hgroup]
  exact (c.translator.overrides kind).lookup_entries_data name

/-- The data make every setting but the limits that are not overridden. -/
theorem takes_data {standard : Config} (hstandard : standard.translator = {}) (hc : c.IsStorable)
    {α : Type} (s : Setting α) : s.Takes (c.data.at? s.path) (standard.get s) (c.get s) := by
  cases s with
  | limit kind name =>
    rw [at?_data_limit]
    cases h : c.get (.limit kind name) with
    | none => exact (get_limit_of_translator hstandard kind name).symm
    | some n => exact ⟨n, rfl, hc kind name n h, rfl⟩
  | _ => exact rfl

theorem isConfiguration_data (hc : c.IsStorable) : c.data.IsConfiguration where
  tables := by
    have hoverrides (kind : ProgramKind) : ∀ inner,
        c.data.at? ["translator", Setting.tableName kind] = some inner → inner.IsTable := by
      rw [at?_data_overrides]
      rintro _ ⟨⟩
      exact Data.isTable_ofScalars (c.translator.overrides kind).nodup_values
    simp only [Setting.tablePaths, List.forall_mem_cons, List.not_mem_nil, false_imp_iff,
      implies_true, and_true]
    refine ⟨?root, ?translator, hoverrides .vertex, hoverrides .fragment, ?cache, ?debug⟩
    case root | translator =>
      rintro _ ⟨⟩
      exact ⟨_, rfl, by simp⟩
    case cache | debug =>
      rintro _ ⟨⟩
      exact Data.isTable_ofScalars (by simp)
  settings s inner h := by
    have htakes : s.Takes (c.data.at? s.path) ((standard ⟨"", ""⟩).get s) (c.get s) :=
      takes_data rfl hc s
    rw [h] at htakes
    exact ⟨c.get s, htakes⟩

/-- A configuration is read from its data. -/
theorem read?_data {library : Library} (hlaws : library.Laws) {standard : Config}
    (hstandard : standard.translator = {}) (hc : c.IsStorable) :
    standard.read? library c.data = some c := by
  obtain ⟨c', hread, htakes⟩ := exists_read? hlaws hstandard (isConfiguration_data hc)
  obtain rfl : c' = c :=
    ext_get fun s => Setting.takes_unique (htakes s) (takes_data hstandard hc s)
  exact hread

end Config

end ShaderAssembly
