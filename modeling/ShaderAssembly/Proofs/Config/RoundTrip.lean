import Mathlib
import ShaderAssembly.Proofs.Bytes
import ShaderAssembly.Proofs.Config.Inverse
import ShaderAssembly.Proofs.Files.Tree
/-!
# Configurations that are saved and loaded again

* `Config.run_load_of_holds`: loading gives what the text in a file asks for;
* `Config.run_load_of_run_save`: a configuration comes back from a store that retains what is written;
* **`Config.keeps_settings`**: with a library that keeps its laws and reads what it writes, nothing is
  lost by saving, a document replaces the settings that it makes and no other, and an override the
  limit that it names and no other.
-/

namespace ShaderAssembly.Config

section Store

variable {σ : Type} [FileStore (StateM σ)] {library : Toml.Library} {standard c : Config}
  {path text : String} {s s' : σ}

theorem run_load_of_holds (h : FileStore.Holds path (Bytes.ofText text) s)
    (htext : standard.ofText? library text = some c) :
    ((load standard path library : StateM σ (Except ConfigError Config)).run s).1 = .ok c := by
  obtain ⟨s', hpresent, hread⟩ := h
  have hreadText :
      ((FileStore.readText? path : StateM σ (Option String)).run s').1 = some text := by
    rw [FileStore.readText?, FileStore.run_bind, hread]
    exact Bytes.text?_ofText text
  rw [load, FileStore.run_bind, hpresent]
  simp only [Bool.not_true, Bool.false_eq_true, if_false, FileStore.run_bind, hreadText, htext]
  rfl

theorem exists_write_of_run_save (htext : c.toText? library = some text)
    (h : (c.save path library : StateM σ Bool).run s = (true, s')) :
    ∃ s₁, (FileStore.ensureParent path : StateM σ Bool).run s = (true, s₁) ∧
      (FileStore.write path (Bytes.ofText text) : StateM σ Bool).run s₁ = (true, s') := by
  rw [save, FileStore.run_bind, htext] at h
  generalize (FileStore.ensureParent path : StateM σ Bool).run s = made at h ⊢
  obtain ⟨made, s₁⟩ := made
  cases made with
  | true => exact ⟨s₁, rfl, h⟩
  | false => cases h

theorem run_load_of_run_save (htext : c.toText? library = some text)
    (hread : standard.ofText? library text = some c)
    (hretains : FileStore.Retains path ((FileStore.ensureParent path : StateM σ Bool).run s).2)
    (hsave : (c.save path library : StateM σ Bool).run s = (true, s')) :
    ((load standard path library : StateM σ (Except ConfigError Config)).run s').1 = .ok c := by
  obtain ⟨s₁, hparent, hwritten⟩ := exists_write_of_run_save htext hsave
  rw [hparent] at hretains
  exact run_load_of_holds (hretains _ s' hwritten) hread

end Store

/-- **Nothing is lost by saving, and a document replaces what it names and nothing else.** This is
said of every library that keeps its laws and reads what it writes for a configuration. A
configuration has a text and is read back from it, and from a store that retains what is written. A
document whose settings are well made, among whatever else it holds, replaces them in the standard
configuration, and no others. An override replaces the limit of its kind and name, and no other. -/
theorem keeps_settings (library : Toml.Library) (hlaws : library.Laws)
    (hinverse : ∀ c : Config, c.IsStorable → library.Inverts c.data) (folders : UserFolders) :
    (∀ c : Config, c.IsStorable →
      (∃ text, c.toText? library = some text ∧ (standard folders).ofText? library text = some c) ∧
      ∀ {σ : Type} [FileStore (StateM σ)] (path : String) (s s' : σ),
        FileStore.Retains path ((FileStore.ensureParent path : StateM σ Bool).run s).2 →
        (c.save path library : StateM σ Bool).run s = (true, s') →
        ((load (standard folders) path library : StateM σ (Except ConfigError Config)).run s').1 =
          .ok c) ∧
    (∀ (text : String) (data : Toml.Data), library.parse? text = some data → data.IsConfiguration →
      ∃ c : Config, (standard folders).ofText? library text = some c ∧
        (∀ {σ : Type} [FileStore (StateM σ)] (path : String) (s : σ),
          FileStore.Holds path (Bytes.ofText text) s →
          ((load (standard folders) path library : StateM σ (Except ConfigError Config)).run s).1 =
            .ok c) ∧
        ∀ {α : Type} (s : Setting α),
          s.Takes (data.at? s.path) ((standard folders).get s) (c.get s)) ∧
    ∀ (c : Config) (kind : ProgramKind) (name : LimitName),
      (c.translator.limits kind).get name =
        (c.get (.limit kind name)).getD ((Limits.ofKind kind).get name) := by
  have hstandard : (standard folders).translator = {} := rfl
  refine ⟨fun c hc => ?_, fun text data hparse hdata => ?_,
    fun c kind name => Limits.get_override _ _ name⟩
  · obtain ⟨text, hprint, hparse⟩ := hinverse c hc
    have hread : (standard folders).ofText? library text = some c := by
      rw [ofText?, hparse, Option.bind_some, read?_data hlaws hstandard hc]
    exact ⟨⟨text, hprint, hread⟩, fun _ _ _ => run_load_of_run_save hprint hread⟩
  · obtain ⟨c, hc, htakes⟩ := exists_read? hlaws hstandard hdata
    have hread : (standard folders).ofText? library text = some c := by
      rw [ofText?, hparse, Option.bind_some, hc]
    exact ⟨c, hread, fun _ _ h => run_load_of_holds h hread, htakes⟩

/-- A configuration with overrides of both kinds, one of them the greatest there is, and with paths
that need quotes of several sorts. -/
def eccentric : Config where
  translator :=
    { vertex := { maxTemporaries := some 0xFFFFFFFF }
      fragment := { maxInstructions := some 0, maxTextureUnits := some 4 } }
  cache := { enabled := false, archivePath := "it's a \"quoted\\path\"\x07\n" }
  debug := { logLevel := .trace, dumpShaders := true, dumpPath := "" }

/-- A document with a table between braces and a key with points, among names that mean nothing. -/
def sparseText : String :=
  "debug = \x7blog_level = 'error', hue = []\x7d\n" ++
    "translator.vertex.max_temporaries = 0x10 # sixteen\n[[spare]]\n"

/-- What is read from it. -/
def sparseTree : Toml.Entries :=
  [("debug", .table .braces [("log_level", .scalar (.text "error")), ("hue", .list [])]),
    ("translator", .table .dotted
      [("vertex", .table .dotted [("max_temporaries", .scalar (.integer 16))])]),
    ("spare", .tables [[]])]

/-- What the document holds. -/
def sparseData : Toml.Data :=
  .table
    [("debug", .table [("log_level", .scalar (.text "error")), ("hue", .list [])]),
      ("translator", .table [("vertex", .table [("max_temporaries", .scalar (.integer 16))])]),
      ("spare", .list [.table []])]

theorem isConfiguration_sparseData : sparseData.IsConfiguration where
  tables := by
    simp only [Setting.tablePaths, List.forall_mem_cons, List.not_mem_nil, false_imp_iff,
      implies_true, and_true]
    refine ⟨?_, ?_, ?_, ?_, ?_, ?_⟩ <;> rintro _ ⟨⟩ <;> exact ⟨_, rfl, by decide⟩
  settings s inner h := by
    cases s with
    | limit kind name =>
      cases kind <;> cases name <;> cases h
      exact ⟨some 16, 16, rfl, by decide, rfl⟩
    | logLevel =>
      cases h
      exact ⟨.error, rfl⟩
    | _ => cases h

theorem keeps_settings_eccentric :
    Toml.Library.builtIn.Laws ∧ (∀ c : Config, c.IsStorable → Toml.Library.builtIn.Inverts c.data) ∧
    eccentric.IsStorable ∧
    (∃ t, (eccentric.save "etc/config.toml" : StateM FileTree Bool).run .fresh = (true, t) ∧
      ((load (standard ⟨"/etc", "/var"⟩) "etc/config.toml" :
        StateM FileTree (Except ConfigError Config)).run t).1 = .ok eccentric) ∧
    Toml.Library.builtIn.parse? sparseText = some sparseData ∧ sparseData.IsConfiguration ∧
    ∃ c, (standard ⟨"/etc", "/var"⟩).ofText? .builtIn sparseText = some c ∧
      c.get .logLevel = .error ∧ c.get .dumpPath = "glshim-dump" ∧ c.get .enabled = true ∧
      c.get .archivePath = "/var/glshim/shaders.psa" ∧
      (c.translator.limits .vertex).get .temporaries = 16 ∧
      (c.translator.limits .fragment).get .temporaries = 32 := by
  have hstorable : eccentric.IsStorable := by
    intro kind name n h
    cases kind <;> cases name <;> cases h <;> decide
  have hretains : FileStore.Retains "etc/config.toml"
      ((FileStore.ensureParent "etc/config.toml" : StateM FileTree Bool).run .fresh).2 :=
    FileTree.retains (by decide +kernel)
  have hsaved : ((eccentric.save "etc/config.toml" : StateM FileTree Bool).run .fresh).1 = true := by
    decide +kernel
  have hparse : Toml.Library.builtIn.parse? sparseText = some sparseData := by
    have htree : Toml.parse? sparseText = some sparseTree := by
      rw [Toml.parse?, show sparseText = String.ofList _ from String.ofList_append.symm,
        String.toList_ofList]
      cbv
    exact congrArg (Option.map _) htree
  have hinverse (c : Config) : c.IsStorable → Toml.Library.builtIn.Inverts c.data := inverts_builtIn
  have hkeeps := keeps_settings .builtIn Toml.Library.laws_builtIn hinverse ⟨"/etc", "/var"⟩
  obtain ⟨c, hc, -, htakes⟩ := hkeeps.2.1 sparseText sparseData hparse isConfiguration_sparseData
  refine ⟨Toml.Library.laws_builtIn, hinverse, hstorable, ⟨_, Prod.ext hsaved rfl,
    (hkeeps.1 eccentric hstorable).2 _ _ _ hretains (Prod.ext hsaved rfl)⟩, hparse,
    isConfiguration_sparseData, c, hc, ?_⟩
  have hvalue {α : Type} (s : Setting α) {value : α}
      (h : s.Takes (sparseData.at? s.path) ((standard ⟨"/etc", "/var"⟩).get s) value) :
      c.get s = value := Setting.takes_unique (htakes s) h
  refine ⟨hvalue .logLevel rfl, hvalue .dumpPath rfl, hvalue .enabled rfl,
    hvalue .archivePath ?_, ?_, ?_⟩
  · change "/var/glshim/shaders.psa" = UserFolders.archiveFile ⟨"/etc", "/var"⟩
    decide +kernel
  · rw [hkeeps.2.2, hvalue (.limit .vertex .temporaries) ⟨16, rfl, by decide, rfl⟩]
    rfl
  · rw [hkeeps.2.2, hvalue (.limit .fragment .temporaries) rfl]
    rfl

end ShaderAssembly.Config
