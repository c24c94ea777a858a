import ShaderAssembly.Config.Format
import ShaderAssembly.Proofs.Toml.Laws
/-!
# Settings

The settings of the program one by one, each with the path under which a document makes it.

* `Limits.get_override`: an override replaces the limit of its own name only;
* `Setting`, `Config.get`: a single setting, and its value in a configuration; `Config.ext_get`: a
  configuration is nothing but its settings;
* `Setting.Denotes`: the values that a document may give a setting;
* `Toml.Data.IsConfiguration`: documents in which every setting that they make has such a value;
* **`Config.exists_read?`**: such a document replaces the settings that it makes, and no other.
-/

namespace ShaderAssembly

/-! ## Limits by name -/

theorem LimitName.mem_all (name : LimitName) : name ∈ all := by cases name <;> decide

/-- The limit of a name. -/
def Limits.get (l : Limits) : LimitName → Nat
  | .instructions => l.maxInstructions
  | .temporaries => l.maxTemporaries
  | .addressRegisters => l.maxAddressRegisters
  | .envParams => l.maxEnvParams
  | .localParams => l.maxLocalParams
  | .textureUnits => l.maxTextureUnits
  | .textureCoords => l.maxTextureCoords

theorem Limits.get_override (l : Limits) (o : LimitOverrides) (name : LimitName) :
    (l.override o).get name = (o.get? name).getD (l.get name) := by
  cases name <;> rfl

namespace LimitOverrides

/-- The overrides with given values. -/
def of (f : LimitName → Option Nat) : LimitOverrides where
  maxInstructions := f .instructions
  maxTemporaries := f .temporaries
  maxAddressRegisters := f .addressRegisters
  maxEnvParams := f .envParams
  maxLocalParams := f .localParams
  maxTextureUnits := f .textureUnits
  maxTextureCoords := f .textureCoords

theorem of_get? (o : LimitOverrides) : LimitOverrides.of o.get? = o := rfl

theorem ext_get? {o o' : LimitOverrides} (h : ∀ name, o.get? name = o'.get? name) : o = o' := by
  rw [← o.of_get?, ← o'.of_get?, funext h]

@[simp] theorem get?_set_self (o : LimitOverrides) (name : LimitName) (limit : Option Nat) :
    (o.set name limit).get? name = limit := by
  cases name <;> rfl

theorem set_get? (o : LimitOverrides) (name : LimitName) : o.set name (o.get? name) = o := by
  cases name <;> rfl

theorem get?_set_of_ne {o : LimitOverrides} {name name' : LimitName} {limit : Option Nat}
    (h : name ≠ name') : (o.set name limit).get? name' = o.get? name' := by
  cases name <;> cases name' <;> first | rfl | exact absurd rfl h

end LimitOverrides

/-! ## Settings one by one -/

/-- A setting, with the type of its values. -/
inductive Setting : Type → Type where
  | limit (kind : ProgramKind) (name : LimitName) : Setting (Option Nat)
  | enabled : Setting Bool
  | archivePath : Setting String
  | logLevel : Setting LogLevel
  | dumpShaders : Setting Bool
  | dumpPath : Setting String

/-- The value of a setting. -/
def Config.get (c : Config) {α : Type} : Setting α → α
  | .limit kind name => (c.translator.overrides kind).get? name
  | .enabled => c.cache.enabled
  | .archivePath => c.cache.archivePath
  | .logLevel => c.debug.logLevel
  | .dumpShaders => c.debug.dumpShaders
  | .dumpPath => c.debug.dumpPath

/-- A configuration is nothing but its settings. -/
theorem Config.ext_get {c c' : Config} (h : ∀ {α : Type} (s : Setting α), c.get s = c'.get s) :
    c = c' := by
  have hlimits (kind : ProgramKind) : c.translator.overrides kind = c'.translator.overrides kind :=
    LimitOverrides.ext_get? fun name => h (.limit kind name)
  obtain ⟨⟨vertex, fragment⟩, ⟨enabled, archivePath⟩, ⟨logLevel, dumpShaders, dumpPath⟩⟩ := c
  obtain ⟨⟨vertex', fragment'⟩, ⟨enabled', archivePath'⟩, ⟨logLevel', dumpShaders', dumpPath'⟩⟩ := c'
  obtain rfl : vertex = vertex' := hlimits .vertex
  obtain rfl : fragment = fragment' := hlimits .fragment
  obtain rfl : enabled = enabled' := h .enabled
  obtain rfl : archivePath = archivePath' := h .archivePath
  obtain rfl : logLevel = logLevel' := h .logLevel
  obtain rfl : dumpShaders = dumpShaders' := h .dumpShaders
  obtain rfl : dumpPath = dumpPath' := h .dumpPath
  rfl

/-- The configuration with given values. -/
def Config.of (value : (α : Type) → Setting α → α) : Config where
  translator :=
    { vertex := .of fun name => value _ (.limit .vertex name)
      fragment := .of fun name => value _ (.limit .fragment name) }
  cache := { enabled := value _ .enabled, archivePath := value _ .archivePath }
  debug :=
    { logLevel := value _ .logLevel
      dumpShaders := value _ .dumpShaders
      dumpPath := value _ .dumpPath }

@[simp] theorem Config.get_of (value : (α : Type) → Setting α → α) {α : Type} (s : Setting α) :
    (Config.of value).get s = value α s := by
  cases s with
  | limit kind name => cases kind <;> cases name <;> rfl
  | _ => rfl

namespace Setting

/-- The name of the table that holds the limits of a kind. -/
def tableName : ProgramKind → String
  | .vertex => "vertex"
  | .fragment => "fragment"

/-- The path under which a document makes a setting. -/
def path {α : Type} : Setting α → List String
  | limit kind name => ["translator", tableName kind, name.key]
  | enabled => ["cache", "enabled"]
  | archivePath => ["cache", "archive_path"]
  | logLevel => ["debug", "log_level"]
  | dumpShaders => ["debug", "dump_shaders"]
  | dumpPath => ["debug", "dump_path"]

/-- The paths of the tables that hold settings. -/
def tablePaths : List (List String) :=
  [[], ["translator"], ["translator", "vertex"], ["translator", "fragment"], ["cache"], ["debug"]]

/-- What a document has to hold for a setting to take a value. A limit is a number of 32 bits, and a
level is given by its name. -/
def Denotes (data : Toml.Data) {α : Type} : Setting α → α → Prop
  | limit _ _, value => ∃ n : Nat, data = .scalar (.integer n) ∧ n < 0x100000000 ∧ value = some n
  | enabled, value => data = .scalar (.boolean value)
  | archivePath, value => data = .scalar (.text value)
  | logLevel, value => data = .scalar (.text value.name)
  | dumpShaders, value => data = .scalar (.boolean value)
  | dumpPath, value => data = .scalar (.text value)

/-- The value of a setting in a document that may hold it; without one it has the standard value. -/
def Takes (found : Option Toml.Data) {α : Type} (s : Setting α) (standard value : α) : Prop :=
  match found with
  | some data => s.Denotes data value
  | none => value = standard

end Setting

/-! ## Documents -/

/-- Wherever settings are expected, there is a table, and every setting is made by a value of its kind.
What stands under other names does not matter. -/
structure Toml.Data.IsConfiguration (data : Data) : Prop where
  tables : ∀ path ∈ Setting.tablePaths, ∀ inner, data.at? path = some inner → inner.IsTable
  settings : ∀ {α : Type} (s : Setting α) inner, data.at? s.path = some inner →
    ∃ value, s.Denotes inner value

open Toml

namespace LogLevel

theorem name_injective {l l' : LogLevel} (h : l.name = l'.name) : l = l' := by
  cases l <;> cases l' <;> first | rfl | exact absurd h (by decide)

theorem mem_choices (l : LogLevel) : (l.name, l) ∈ choices := by cases l <;> decide

end LogLevel

namespace Setting

variable {α : Type} {library : Library}

/-- The value that data give a setting. -/
def read? (library : Library) : Setting α → Data → Option α
  | limit _ _ => fun data => (library.word? data).map some
  | enabled => library.boolean?
  | archivePath => library.text?
  | logLevel => library.choice? LogLevel.choices
  | dumpShaders => library.boolean?
  | dumpPath => library.text?

theorem read?_of_denotes (hlaws : library.Laws) {s : Setting α} {data : Data} {value : α}
    (h : s.Denotes data value) : s.read? library data = some value := by
  cases s with
  | limit =>
    obtain ⟨n, rfl, hn, rfl⟩ := h
    exact congrArg (Option.map some) (hlaws.word hn)
  | enabled =>
    obtain rfl := h
    exact hlaws.boolean _
  | archivePath =>
    obtain rfl := h
    exact hlaws.text _
  | logLevel =>
    obtain rfl := h
    exact hlaws.choice (by decide) (LogLevel.mem_choices _)
  | dumpShaders =>
    obtain rfl := h
    exact hlaws.boolean _
  | dumpPath =>
    obtain rfl := h
    exact hlaws.text _

theorem takes_unique {s : Setting α} {found : Option Data} {standard value value' : α}
    (h : s.Takes found standard value) (h' : s.Takes found standard value') : value = value' := by
  cases found with
  | none => exact Eq.trans h (Eq.symm h')
  | some data =>
    cases s with
    | limit =>
      obtain ⟨n, rfl, -, rfl⟩ := h
      obtain ⟨n', heq, -, rfl⟩ := h'
      rw [Data.scalar.injEq, Scalar.integer.injEq, Int.natCast_inj] at heq
      rw [heq]
    | enabled | archivePath | dumpShaders | dumpPath => simpa using Eq.trans (Eq.symm h) h'
    | logLevel => exact LogLevel.name_injective (by simpa using Eq.trans (Eq.symm h) h')

theorem exists_reads (hlaws : library.Laws) (s : Setting α) (standard : α) {found : Option Data}
    (h : ∀ data, found = some data → ∃ value, s.Denotes data value) :
    ∃ value, Reads (s.read? library) standard found value ∧ s.Takes found standard value := by
  cases found with
  | none => exact ⟨standard, rfl, rfl⟩
  | some data =>
    obtain ⟨value, hvalue⟩ := h data rfl
    exact ⟨value, read?_of_denotes hlaws hvalue, hvalue⟩

end Setting

/-! ## Records of settings -/

section Limits

variable {library : Library} {data : Data} {path : List String} {o' : LimitOverrides}

theorem LimitOverrides.foldlM_fields
    (hread : ∀ name, Reads (fun data => (library.word? data).map some) none
      (data.at? (path ++ [LimitName.key name])) (o'.get? name))
    {names : List LimitName} (hnodup : names.Nodup) {o : LimitOverrides}
    (hfresh : ∀ name ∈ names, o.get? name = none)
    (hset : ∀ name, name ∉ names → o.get? name = o'.get? name) :
    (names.map fun name => RecordField.reading name.key (fun data => (library.word? data).map some)
        (fun o : LimitOverrides => o.set name)).foldlM (RecordField.update? (data.group path)) o =
      some o' := by
  induction names generalizing o with
  | nil =>
    obtain rfl : o = o' := ext_get? fun name => hset name List.not_mem_nil
    rfl
  | cons name names ih =>
    obtain ⟨hname, hnames⟩ := List.forall_mem_cons.1 hfresh
    obtain ⟨hnot, hnodup⟩ := List.nodup_cons.1 hnodup
    have hself : o.set name none = o := hname ▸ o.set_get? name
    refine (RecordField.foldlM_cons (hread name) hself).trans
      (ih hnodup (fun name' hname' => ?_) fun name' hname' => ?_)
    · have hne : name ≠ name' := by
        rintro rfl
        exact hnot hname'
      rw [get?_set_of_ne hne, hnames name' hname']
    · obtain rfl | hne := eq_or_ne name name'
      · exact get?_set_self o name _
      · rw [get?_set_of_ne hne]
        exact hset name' (List.not_mem_cons_of_ne_of_not_mem hne.symm hname')

end Limits

namespace Config

section Parts

variable {library : Library} {standard c : Config} {data : Data}
  (hlaws : library.Laws) (hdata : data.IsConfiguration)
  (hread : ∀ {α : Type} (s : Setting α),
    Reads (s.read? library) (standard.get s) (data.at? s.path) (c.get s))
include hlaws hdata hread

omit hlaws hdata hread in
theorem get_limit_of_translator (hstandard : standard.translator = {}) (kind : ProgramKind)
    (name : LimitName) : standard.get (.limit kind name) = none := by
  rw [get, hstandard]
  cases kind <;> cases name <;> rfl

theorem reads_overrides (hstandard : standard.translator = {}) (kind : ProgramKind) :
    Reads (LimitOverrides.read? library) {} (data.at? ["translator", Setting.tableName kind])
      (c.translator.overrides kind) := by
  have hlimit (name : LimitName) : Reads (fun data => (library.word? data).map some) none
      (data.at? (["translator", Setting.tableName kind] ++ [name.key]))
      ((c.translator.overrides kind).get? name) := by
    have h := hread (.limit kind name)
    rwa [get_limit_of_translator hstandard] at h
  have hfresh : ∀ name ∈ LimitName.all, LimitOverrides.get? {} name = none := by decide
  exact hlaws.reads_record (hdata.tables _ (by cases kind <;> decide))
    (LimitOverrides.foldlM_fields hlimit (by decide) hfresh fun name h => absurd name.mem_all h)

theorem reads_translator (hstandard : standard.translator = {}) :
    Reads (TranslatorSettings.read? library) standard.translator (data.at? ["translator"])
      c.translator := by
  have hoverrides := reads_overrides hlaws hdata hread hstandard
  rw [hstandard]
  refine hlaws.reads_record (hdata.tables _ (by decide)) ?_
  refine (RecordField.foldlM_cons (hoverrides .vertex) rfl).trans ?_
  exact RecordField.foldlM_cons (hoverrides .fragment) rfl

theorem reads_cache :
    Reads (standard.cache.read? library) standard.cache (data.at? ["cache"]) c.cache := by
  refine hlaws.reads_record (hdata.tables _ (by decide)) ?_
  refine (RecordField.foldlM_cons (hread .enabled) rfl).trans ?_
  exact RecordField.foldlM_cons (hread .archivePath) rfl

theorem reads_debug :
    Reads (standard.debug.read? library) standard.debug (data.at? ["debug"]) c.debug := by
  refine hlaws.reads_record (hdata.tables _ (by decide)) ?_
  refine (RecordField.foldlM_cons (hread .logLevel) rfl).trans ?_
  refine (RecordField.foldlM_cons (hread .dumpShaders) rfl).trans ?_
  exact RecordField.foldlM_cons (hread .dumpPath) rfl

theorem read?_of_reads (hstandard : standard.translator = {}) :
    standard.read? library data = some c := by
  have htranslator := reads_translator hlaws hdata hread hstandard
  suffices Reads (standard.read? library) standard (data.at? []) c from this
  refine hlaws.reads_record (hdata.tables _ (by decide)) ?_
  refine (RecordField.foldlM_cons htranslator rfl).trans ?_
  refine (RecordField.foldlM_cons (reads_cache hlaws hdata hread) rfl).trans ?_
  exact RecordField.foldlM_cons (reads_debug hlaws hdata hread) rfl

end Parts

/-- A document replaces the settings that it makes, and no other, if no limit is overridden from the
start. -/
theorem exists_read? {library : Library} (hlaws : library.Laws) {standard : Config}
    (hstandard : standard.translator = {}) {data : Data} (hdata : data.IsConfiguration) :
    ∃ c, standard.read? library data = some c ∧
      ∀ {α : Type} (s : Setting α), s.Takes (data.at? s.path) (standard.get s) (c.get s) := by
  have hvalue (α : Type) (s : Setting α) : ∃ value,
      Reads (s.read? library) (standard.get s) (data.at? s.path) value ∧
        s.Takes (data.at? s.path) (standard.get s) value :=
    s.exists_reads hlaws (standard.get s) (hdata.settings s)
  choose value hread htakes using hvalue
  refine ⟨.of value, read?_of_reads hlaws hdata (fun s => ?_) hstandard, fun s => ?_⟩
  · rw [get_of]
    exact hread _ s
  · rw [get_of]
    exact htakes _ s

end Config

end ShaderAssembly
