import ShaderAssembly.Config.File
import ShaderAssembly.Proofs.Config.Data
import ShaderAssembly.Proofs.Toml.Library
/-!
# The text of a configuration

* `Config.sections`: the tables under whose headers the data of a configuration are written;
* `Config.tree`: the document that is read from them;
* **`Config.inverts_builtIn`**: the built-in library reads the data of a configuration from their
  text.
-/

namespace ShaderAssembly.Config

open Toml

variable {c : Config}

/-- The tables that hold a configuration. -/
def sections (c : Config) : List Section :=
  [⟨["translator", "vertex"], c.translator.vertex.values⟩,
    ⟨["translator", "fragment"], c.translator.fragment.values⟩,
    ⟨["cache"],
      [("enabled", .boolean c.cache.enabled), ("archive_path", .text c.cache.archivePath)]⟩,
    ⟨["debug"],
      [("log_level", .text c.debug.logLevel.name), ("dump_shaders", .boolean c.debug.dumpShaders),
        ("dump_path", .text c.debug.dumpPath)]⟩]

theorem print?_data (c : Config) : c.data.print? = some (Toml.print c.sections) := by
  have htranslator : Data.sections? ["translator"] c.translator.data =
      some (c.sections.take 2) := by
    rw [TranslatorSettings.data, Data.sections?, LimitOverrides.data, LimitOverrides.data,
      tableSections?_cons_ofScalars, tableSections?_cons_ofScalars]
    rfl
  have htables : tableSections? [] c.data.entries = some c.sections := by
    refine (tableSections?_cons_table ..).trans ?_
    refine (congrArg (Option.bind · _) htranslator).trans ?_
    rw [CacheSettings.data, DebugSettings.data, tableSections?_cons_ofScalars,
      tableSections?_cons_ofScalars]
    rfl
  exact congrArg (Option.map _) htables

theorem IsStorable.section (hc : c.IsStorable) (kind : ProgramKind) :
    (⟨["translator", Setting.tableName kind], (c.translator.overrides kind).values⟩ :
      Section).IsStorable where
  ne_nil := List.cons_ne_nil _ _
  length_path := (by decide : 2 ≤ greatestDepth)
  path := by
    cases kind with
    | vertex => exact (by decide : ∀ name ∈ ["translator", "vertex"], IsBare name)
    | fragment => exact (by decide : ∀ name ∈ ["translator", "fragment"], IsBare name)
  names e he := by
    have hkeys : ∀ name ∈ LimitName.all, IsBare name.key := by decide
    obtain ⟨name, n, rfl, -⟩ := LimitOverrides.mem_values _ he
    exact hkeys name name.mem_all
  values e he := by
    obtain ⟨name, n, rfl, hn⟩ := LimitOverrides.mem_values _ he
    have hlt := hc kind name n hn
    exact ⟨by omega, by omega⟩

theorem isStorable_single {name : String} {values : List (String × Scalar)} (hname : IsBare name)
    (hnames : ∀ e ∈ values, IsBare e.1) (hvalues : ∀ e ∈ values, e.2.IsStorable) :
    (⟨[name], values⟩ : Section).IsStorable where
  ne_nil := List.cons_ne_nil _ _
  length_path := (by decide : 1 ≤ greatestDepth)
  path := List.forall_mem_singleton.2 hname
  names := hnames
  values := hvalues

theorem isStorable_sections (hc : c.IsStorable) : ∀ s ∈ c.sections, s.IsStorable := by
  rw [sections]
  simp only [List.forall_mem_cons, List.not_mem_nil, false_imp_iff, implies_true, and_true]
  refine ⟨hc.section .vertex, hc.section .fragment, isStorable_single (by decide) ?_ ?_,
    isStorable_single (by decide) ?_ ?_⟩
  all_goals simp only [List.forall_mem_cons, List.not_mem_nil, false_imp_iff, implies_true, and_true]
  · decide
  · exact ⟨trivial, trivial⟩
  · decide
  · exact ⟨trivial, trivial, trivial⟩

/-- The document that is read from the text of a configuration. -/
def tree (c : Config) : Entries :=
  [("translator", .table .parent
      [("vertex", .table .header (Entries.scalars c.translator.vertex.values)),
        ("fragment", .table .header (Entries.scalars c.translator.fragment.values))]),
    ("cache", .table .header
      [("enabled", .scalar (.boolean c.cache.enabled)),
        ("archive_path", .scalar (.text c.cache.archivePath))]),
    ("debug", .table .header
      [("log_level", .scalar (.text c.debug.logLevel.name)),
        ("dump_shaders", .scalar (.boolean c.debug.dumpShaders)),
        ("dump_path", .scalar (.text c.debug.dumpPath))])]

theorem parse?_sections (hc : c.IsStorable) : Toml.parse? (Toml.print c.sections) = some c.tree := by
  have hvertex : Section.addTo? ⟨["translator", "vertex"], c.translator.vertex.values⟩ [] =
      some [("translator", .table .parent
        [("vertex", .table .header (Entries.scalars c.translator.vertex.values))])] :=
    Section.addTo?_child c.translator.vertex.nodup_values rfl
  have hfragment : Section.addTo? ⟨["translator", "fragment"], c.translator.fragment.values⟩
      [("translator", .table .parent
        [("vertex", .table .header (Entries.scalars c.translator.vertex.values))])] =
      some (c.tree.take 1) :=
    Section.addTo?_sibling c.translator.fragment.nodup_values rfl
  have hcache : Section.addTo? ⟨["cache"], [("enabled", .boolean c.cache.enabled),
      ("archive_path", .text c.cache.archivePath)]⟩ (c.tree.take 1) = some (c.tree.take 2) :=
    Section.addTo?_single (by simp) rfl
  have hdebug : Section.addTo? ⟨["debug"], [("log_level", .text c.debug.logLevel.name),
      ("dump_shaders", .boolean c.debug.dumpShaders), ("dump_path", .text c.debug.dumpPath)]⟩
      (c.tree.take 2) = some c.tree :=
    Section.addTo?_single (by simp) rfl
  rw [parse?_print (isStorable_sections hc), sections]
  simp only [List.foldlM_cons, List.foldlM_nil, hvertex, hfragment, hcache, hdebug,
    Option.bind_eq_bind, Option.bind_some]
  rfl

theorem table_entriesData_tree (c : Config) : .table (entriesData c.tree) = c.data := by
  rw [tree]
  simp only [entriesData, Node.data, entriesData_scalars]
  rfl

/-- The built-in library reads the data of a configuration from their text. -/
theorem inverts_builtIn (hc : c.IsStorable) : Library.builtIn.Inverts c.data := by
  refine ⟨_, print?_data c, ?_⟩
  rw [← table_entriesData_tree]
  exact congrArg (Option.map _) (parse?_sections hc)

end ShaderAssembly.Config
