import ShaderAssembly.Config
import ShaderAssembly.Toml.Data
/-!
# Configurations as documents

* `Config.data`, `Config.toText?`: the document that is written for a configuration, and its text;
* `LimitOverrides.fields`, `CacheSettings.fields`, `DebugSettings.fields`: the settings that belong
  together, each as a field;
* `Config.read?`, `Config.ofText?`: the configuration that a document asks for.

A limit that is not overridden is not written. A document may leave out any setting, which then has its
standard value; the library is asked for the record of the settings that it has.
-/

namespace ShaderAssembly

open Toml

/-! ## Writing -/

/-- Those values of a list that are there, under their names. -/
def presentValues {ι : Type} (key : ι → String) (value : ι → Option Scalar) (names : List ι) :
    List (String × Scalar) :=
  names.filterMap fun i => (value i).map fun v => (key i, v)

/-- The limits that are given. -/
def LimitOverrides.values (o : LimitOverrides) : List (String × Scalar) :=
  presentValues LimitName.key (fun name => (o.get? name).map fun n : Nat => .integer n) LimitName.all

/-- The limits that are given, under their names. -/
def LimitOverrides.data (o : LimitOverrides) : Data := .ofScalars o.values

/-- The limits of both kinds, under the names of the kinds. -/
def TranslatorSettings.data (s : TranslatorSettings) : Data :=
  .table [("vertex", s.vertex.data), ("fragment", s.fragment.data)]

/-- The settings under their names. -/
def CacheSettings.data (c : CacheSettings) : Data :=
  .ofScalars [("enabled", .boolean c.enabled), ("archive_path", .text c.archivePath)]

/-- The settings under their names. -/
def DebugSettings.data (d : DebugSettings) : Data :=
  .ofScalars
    [("log_level", .text d.logLevel.name), ("dump_shaders", .boolean d.dumpShaders),
      ("dump_path", .text d.dumpPath)]

/-- The document that is written for a configuration. -/
def Config.data (c : Config) : Data :=
  .table [("translator", c.translator.data), ("cache", c.cache.data), ("debug", c.debug.data)]

/-- The text of a configuration. -/
def Config.toText? (c : Config) (library : Library) : Option String := library.print? c.data

/-! ## Reading -/

section Read

variable (library : Library)

/-- The overrides of limits, each a number of 32 bits. -/
def LimitOverrides.fields : List (RecordField LimitOverrides) :=
  LimitName.all.map fun name =>
    .reading name.key (fun data => (library.word? data).map some) (·.set name ·)

/-- The overrides that data ask for. -/
def LimitOverrides.read? : Data → Option LimitOverrides :=
  library.record? (LimitOverrides.fields library) {}

/-- The overrides of either kind. -/
def TranslatorSettings.fields : List (RecordField TranslatorSettings) :=
  [.reading "vertex" (LimitOverrides.read? library) fun s o => { s with vertex := o },
    .reading "fragment" (LimitOverrides.read? library) fun s o => { s with fragment := o }]

/-- The overrides of both kinds that data ask for. -/
def TranslatorSettings.read? : Data → Option TranslatorSettings :=
  library.record? (TranslatorSettings.fields library) {}

/-- Whether and where compiled shaders are kept. -/
def CacheSettings.fields : List (RecordField CacheSettings) :=
  [.reading "enabled" library.boolean? fun c b => { c with enabled := b },
    .reading "archive_path" library.text? fun c path => { c with archivePath := path }]

/-- The settings that data make in place of standard ones. -/
def CacheSettings.read? (standard : CacheSettings) : Data → Option CacheSettings :=
  library.record? (CacheSettings.fields library) standard

/-- The levels under their names. -/
def LogLevel.choices : List (String × LogLevel) := LogLevel.all.map fun l => (l.name, l)

/-- How much is told, and whether and where every shader is written too. -/
def DebugSettings.fields : List (RecordField DebugSettings) :=
  [.reading "log_level" (library.choice? LogLevel.choices) fun d l => { d with logLevel := l },
    .reading "dump_shaders" library.boolean? fun d b => { d with dumpShaders := b },
    .reading "dump_path" library.text? fun d path => { d with dumpPath := path }]

/-- The settings that data make in place of standard ones. -/
def DebugSettings.read? (standard : DebugSettings) : Data → Option DebugSettings :=
  library.record? (DebugSettings.fields library) standard

namespace Config

/-- The tables of a configuration. -/
def fields (standard : Config) : List (RecordField Config) :=
  [.reading "translator" (TranslatorSettings.read? library) fun c s => { c with translator := s },
    .reading "cache" (standard.cache.read? library) fun c s => { c with cache := s },
    .reading "debug" (standard.debug.read? library) fun c s => { c with debug := s }]

/-- The configuration that data make of a standard one. -/
def read? (standard : Config) : Data → Option Config :=
  library.record? (standard.fields library) standard

/-- The configuration that a text makes of a standard one. -/
def ofText? (standard : Config) (text : String) : Option Config :=
  (library.parse? text).bind (standard.read? library)

end Config

end Read

end ShaderAssembly
