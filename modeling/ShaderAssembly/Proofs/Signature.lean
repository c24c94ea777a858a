import ShaderAssembly.CommandLine
import ShaderAssembly.Proofs.Files.Tree
import ShaderAssembly.Proofs.Generation.Program
import ShaderAssembly.Proofs.Parsing.Extent
import ShaderAssembly.Proofs.Parsing.Text
/-!
# Signatures

A text is a program of a kind if the signature of the kind stands in it, and the signature that stands
first tells the kind.

* `Text.FirstAt`: where a pattern stands first in a text;
* `Text.find?_eq_some`, `Text.find?_eq_none`: it is found there, or it is not there at all;
* `Header.classify_eq_ok`, `Header.classify_eq_error`: what is said about a text for a kind;
* `Header.detectKind_eq_some`, `Header.detectKind_eq_none`: the kind of a text;
* `not_isHeaderError_of_detectKind`, `not_isHeaderError_of_run`: where the kind is left to the text,
  nothing is refused for want of a header;
* **`Header.detects`**: what is said for a kind and what kind is found go together.
-/

namespace ShaderAssembly

/-! ## The first place of a pattern -/

namespace Text

/-- The pattern stands at a byte of the text. -/
def OccursAt (pattern cs : List Char) (byte : Nat) : Prop :=
  ∃ before after, cs = before ++ pattern ++ after ∧ byteLength before = byte

/-- The pattern stands at a byte of the text, and at no byte before it. -/
structure FirstAt (pattern cs : List Char) (byte : Nat) : Prop where
  occurs : OccursAt pattern cs byte
  first : ∀ byte', OccursAt pattern cs byte' → byte ≤ byte'

variable {pattern cs before after : List Char} {byte byte' : Nat}

theorem occursAt_iff_within : (∃ byte, OccursAt pattern cs byte) ↔ pattern <:+: cs := by
  constructor
  · rintro ⟨_, before, after, h, -⟩
    exact ⟨before, after, h.symm⟩
  · rintro ⟨before, after, h⟩
    exact ⟨_, before, after, h.symm, rfl⟩

theorem FirstAt.unique (h : FirstAt pattern cs byte) (h' : FirstAt pattern cs byte') : byte = byte' :=
  Nat.le_antisymm (h.first _ h'.occurs) (h'.first _ h.occurs)

theorem dropPrefix?_append (pattern after : List Char) :
    dropPrefix? pattern (pattern ++ after) = some after := by
  induction pattern with
  | nil => cases after <;> rfl
  | cons p ps ih => rw [List.cons_append, dropPrefix?, if_pos rfl, ih]

theorem prefix_of_cutAt? (h : cutAt? pattern cs = some (before, after)) {before' after' : List Char}
    (hcs : cs = before' ++ pattern ++ after') : before <+: before' := by
  induction cs generalizing before before' with
  | nil =>
    obtain ⟨_, -, ⟨⟩⟩ := Option.map_eq_some_iff.1 h
    exact List.nil_prefix
  | cons c cs ih =>
    rw [cutAt?] at h
    split at h
    · cases h
      exact List.nil_prefix
    · rename_i hdrop
      obtain ⟨⟨front, rest⟩, hcut, ⟨⟩⟩ := Option.map_eq_some_iff.1 h
      cases before' with
      | nil =>
        rw [hcs, List.nil_append, dropPrefix?_append] at hdrop
        cases hdrop
      | cons d ds =>
        rw [List.append_assoc, List.cons_append, ← List.append_assoc] at hcs
        obtain ⟨rfl, htail⟩ := List.cons.inj hcs
        exact List.cons_prefix_cons.2 ⟨rfl, ih hcut htail⟩

theorem cutAt?_ne_none (before pattern after : List Char) :
    cutAt? pattern (before ++ pattern ++ after) ≠ none := by
  induction before with
  | nil =>
    rw [List.nil_append]
    have hdrop := dropPrefix?_append pattern after
    cases hcs : pattern ++ after with
    | nil => rw [cutAt?, ← hcs, hdrop]; exact Option.some_ne_none _
    | cons c cs => rw [cutAt?, ← hcs, hdrop]; exact Option.some_ne_none _
  | cons c cs ih =>
    rw [List.cons_append, List.cons_append, cutAt?]
    split
    · exact Option.some_ne_none _
    · rwa [Ne, Option.map_eq_none_iff]

/-- **A pattern is found where it stands first.** -/
theorem find?_eq_some : find? pattern cs = some byte ↔ FirstAt pattern cs byte := by
  have sound {byte : Nat} (h : find? pattern cs = some byte) : FirstAt pattern cs byte := by
    obtain ⟨⟨before, after⟩, hcut, rfl⟩ := Option.map_eq_some_iff.1 h
    refine ⟨⟨before, after, cutAt?_eq_some hcut, rfl⟩, ?_⟩
    rintro _ ⟨before', after', hcs, rfl⟩
    obtain ⟨more, rfl⟩ := prefix_of_cutAt? hcut hcs
    rw [byteLength_append]
    exact Nat.le_add_right _ _
  refine ⟨sound, fun h => ?_⟩
  obtain ⟨before, after, rfl, -⟩ := h.occurs
  cases hfind : find? pattern (before ++ pattern ++ after) with
  | none => exact absurd (Option.map_eq_none_iff.1 hfind) (cutAt?_ne_none before pattern after)
  | some place => rw [h.unique (sound hfind)]

theorem find?_eq_none : find? pattern cs = none ↔ ¬ pattern <:+: cs := by
  refine ⟨fun h => ?_, fun h => ?_⟩
  · rintro ⟨before, after, rfl⟩
    exact cutAt?_ne_none before pattern after (Option.map_eq_none_iff.1 h)
  · cases hfind : find? pattern cs with
    | none => rfl
    | some byte => exact absurd (occursAt_iff_within.1 ⟨byte, (find?_eq_some.1 hfind).occurs⟩) h

theorem contains_iff : contains pattern cs = true ↔ pattern <:+: cs := by
  rw [← not_iff_not, ← find?_eq_none, find?, Option.map_eq_none_iff, contains,
    Option.not_isSome_iff_eq_none]

/-- Of two patterns of which neither starts with the other, only one stands at a byte. -/
theorem OccursAt.ne {pattern' : List Char} (h : OccursAt pattern cs byte)
    (h' : OccursAt pattern' cs byte') (hne : ¬ pattern <+: pattern') (hne' : ¬ pattern' <+: pattern) :
    byte ≠ byte' := by
  obtain ⟨before, after, hcs, rfl⟩ := h
  obtain ⟨before', after', hcs', rfl⟩ := h'
  intro hbyte
  have hsplit := splitBytes_append_left before (pattern ++ after)
  rw [← List.append_assoc, ← hcs, hcs', hbyte, List.append_assoc, splitBytes_append_left] at hsplit
  obtain ⟨-, hrest⟩ := Prod.mk.inj hsplit
  obtain h | h := List.prefix_or_prefix_of_prefix (List.prefix_append pattern after)
    (hrest ▸ List.prefix_append pattern' after')
  · exact hne h
  · exact hne' h

end Text

/-! ## The header of a text -/

/-- Reading was refused because the header is not there. -/
def TranslationError.IsHeaderError : TranslationError → Prop
  | .headerMismatch _ | .headerMissing => True
  | .framing | .malformed _ _ | .generation _ _ | .resource _ => False

namespace Header

variable {source : String} {kind : ProgramKind}

theorem utf8ByteSize_signature (kind : ProgramKind) : kind.signature.utf8ByteSize = 10 := by
  cases kind <;> rfl

theorem classify_eq_ok {n : Nat} : classify source kind = .ok n ↔
    ∃ byte, n = byte + 10 ∧ Text.FirstAt kind.signature.toList source.toList byte := by
  unfold classify
  rw [utf8ByteSize_signature]
  split
  · rename_i start hfind
    refine ⟨fun h => ?_, ?_⟩
    · cases h
      exact ⟨start, rfl, Text.find?_eq_some.1 hfind⟩
    · rintro ⟨byte, rfl, h⟩
      rw [h.unique (Text.find?_eq_some.1 hfind)]
  · rename_i hfind
    refine ⟨fun h => ?_, ?_⟩
    · split at h <;> cases h
    · rintro ⟨byte, rfl, h⟩
      rw [find?, Text.find?_eq_some.2 h] at hfind
      cases hfind

theorem exists_classify_eq_ok :
    (∃ n, classify source kind = .ok n) ↔ kind.signature.toList <:+: source.toList := by
  refine ⟨fun ⟨n, h⟩ => ?_, fun h => ?_⟩
  · obtain ⟨byte, -, hfirst⟩ := classify_eq_ok.1 h
    exact Text.occursAt_iff_within.1 ⟨byte, hfirst.occurs⟩
  · cases hfind : Text.find? kind.signature.toList source.toList with
    | none => exact absurd h (Text.find?_eq_none.1 hfind)
    | some byte => exact ⟨_, classify_eq_ok.2 ⟨byte, rfl, Text.find?_eq_some.1 hfind⟩⟩

theorem classify_eq_error {e : TranslationError} : classify source kind = .error e ↔
    ¬ kind.signature.toList <:+: source.toList ∧
      (marker.toList <:+: source.toList ∧ e = .headerMismatch kind ∨
        ¬ marker.toList <:+: source.toList ∧ e = .headerMissing) := by
  unfold classify
  split
  · rename_i start hfind
    have hinfix := Text.occursAt_iff_within.1 ⟨start, (Text.find?_eq_some.1 hfind).occurs⟩
    exact ⟨fun h => absurd h (by simp), fun h => absurd hinfix h.1⟩
  · rename_i hfind
    rw [and_iff_right (Text.find?_eq_none.1 hfind)]
    split
    · rename_i h
      rw [Text.contains_iff] at h
      simp only [h, true_and, not_true_eq_false, false_and, or_false, Except.error.injEq, eq_comm]
    · rename_i h
      rw [Text.contains_iff] at h
      simp only [h, true_and, not_false_eq_true, false_and, false_or, Except.error.injEq, eq_comm]

theorem ne_of_classify {n n' : Nat} (h : classify source kind = .ok n)
    (h' : classify source kind.other = .ok n') : n ≠ n' := by
  obtain ⟨byte, rfl, hfirst⟩ := classify_eq_ok.1 h
  obtain ⟨byte', rfl, hfirst'⟩ := classify_eq_ok.1 h'
  have hne : byte ≠ byte' := by
    refine hfirst.occurs.ne hfirst'.occurs ?_ ?_
    all_goals cases kind <;> decide
  omega

theorem detectKind_eq (source : String) : detectKind source =
    match classify source .vertex, classify source .fragment with
    | .ok v, .ok f => if f < v then some .fragment else some .vertex
    | .ok _, .error _ => some .vertex
    | .error _, .ok _ => some .fragment
    | .error _, .error _ => none := by
  have missing {kind : ProgramKind} (h : find? kind source = none) :
      ∃ e, classify source kind = .error e := by
    rw [classify, h]
    dsimp only
    split <;> exact ⟨_, rfl⟩
  have found {kind : ProgramKind} {start : Nat} (h : find? kind source = some start) :
      classify source kind = .ok (start + 10) := by
    rw [classify, h, utf8ByteSize_signature]
  unfold detectKind
  cases hv : find? .vertex source with
  | none =>
    obtain ⟨e, he⟩ := missing hv
    cases hf : find? .fragment source with
    | none =>
      obtain ⟨e', he'⟩ := missing hf
      rw [he, he']
    | some f => rw [he, found hf]
  | some v =>
    cases hf : find? .fragment source with
    | none =>
      obtain ⟨e, he⟩ := missing hf
      rw [found hv, he]
    | some f =>
      rw [found hv, found hf]
      simp only [Nat.add_lt_add_iff_right]

theorem detectKind_eq_some : detectKind source = some kind ↔
    ∃ n, classify source kind = .ok n ∧ ∀ n', classify source kind.other = .ok n' → n < n' := by
  rw [detectKind_eq]
  cases hv : classify source .vertex with
  | error e => cases hf : classify source .fragment <;> cases kind <;> simp [hv, hf, ProgramKind.other]
  | ok v =>
    cases hf : classify source .fragment with
    | error e => cases kind <;> simp [hv, hf, ProgramKind.other]
    | ok f =>
      have hne : v ≠ f := ne_of_classify hv hf
      by_cases h : f < v
      · cases kind <;> simp [hv, hf, ProgramKind.other, h, Nat.le_of_lt h]
      · have : v < f := by omega
        cases kind <;> simp [hv, hf, ProgramKind.other, h, this]

theorem detectKind_eq_none :
    detectKind source = none ↔ ∀ kind, ∃ e, classify source kind = .error e := by
  rw [detectKind_eq]
  cases hv : classify source .vertex with
  | ok v =>
    refine iff_of_false ?_ fun h => ?_
    · cases classify source .fragment with
      | ok f => dsimp only; split <;> nofun
      | error e => nofun
    · obtain ⟨e, he⟩ := h .vertex
      rw [hv] at he
      cases he
  | error e =>
    cases hf : classify source .fragment with
    | ok f =>
      refine iff_of_false nofun fun h => ?_
      obtain ⟨e, he⟩ := h .fragment
      rw [hf] at he
      cases he
    | error e' =>
      refine iff_of_true rfl fun kind => ?_
      cases kind with
      | vertex => exact ⟨e, hv⟩
      | fragment => exact ⟨e', hf⟩

end Header

/-! ## Translations without a kind -/

section Translation

variable {settings : TranslatorSettings} {source : String} {kind : ProgramKind} {e : TranslationError}

theorem not_isHeaderError_of_readProgram {start : Nat} (hstart : Header.classify source kind = .ok start)
    (h : readProgram settings source kind = .error e) : ¬ e.IsHeaderError := by
  by_cases hframed : isFramed source start = true
  case neg =>
    rw [readProgram, hstart] at h
    simp only [bind, Except.bind, hframed] at h
    cases h
    exact id
  cases hstatus : ((ProgramReader.ofSource source start).run kind (settings.limits kind)).status with
  | running => exact absurd hstatus (ProgramReader.stopped_run _)
  | done =>
    rw [readProgram_of_done hstart hframed hstatus] at h
    cases h
  | failed fault =>
    rw [readProgram_of_failed hstart hframed hstatus] at h
    cases h
    exact id

/-- A text is not refused for want of a header if its own signature tells the kind. -/
theorem not_isHeaderError_of_detectKind (hkind : Header.detectKind source = some kind)
    (h : translate settings source kind = .error e) : ¬ e.IsHeaderError := by
  obtain ⟨start, hstart, -⟩ := Header.detectKind_eq_some.1 hkind
  cases hread : readProgram settings source kind with
  | error e' =>
    rw [translate, hread] at h
    cases h
    exact not_isHeaderError_of_readProgram hstart hread
  | ok m =>
    rw [translate_eq hread] at h
    have hspec := Glsl.generate_spec (wellFormed_of_readProgram hread).2
    split at hspec
    · rw [hspec.2] at h
      cases h
    · rw [hspec] at h
      cases h
      exact id

theorem TranslationError.IsHeaderError.diagnostic_ne {e' : TranslationError} (h : e.IsHeaderError)
    (h' : ¬ e'.IsHeaderError) : e'.diagnostic ≠ e.diagnostic := by
  -- the first letters differ: `P` or `N` on one side, and `H`, `S`, `G` or `c` on the other
  have hfirst : e.diagnostic.toList.head? = some 'P' ∨ e.diagnostic.toList.head? = some 'N' := by
    cases e with
    | headerMismatch kind => cases kind <;> exact .inl rfl
    | headerMissing => exact .inr rfl
    | framing | malformed | generation | resource => exact h.elim
  have hfirst' : e'.diagnostic.toList.head? ∈ [some 'H', some 'S', some 'G', some 'c'] := by
    have start (a b : String) (ha : a ≠ "") : (a ++ b).toList.head? = a.toList.head? := by
      rw [String.toList_append, List.head?_append_of_ne_nil _ (by simpa using ha)]
    cases e' with
    | headerMismatch | headerMissing => exact absurd trivial h'
    | framing => decide
    | malformed reason offset =>
      rw [show diagnostic (.malformed reason offset) = "Syntax error: " ++ reason from rfl,
        start _ _ (by decide)]
      decide
    | generation reason locator =>
      rw [show diagnostic (.generation reason locator) = "Generation error: " ++ reason from rfl,
        start _ _ (by decide)]
      decide
    | resource reason =>
      rw [show diagnostic (.resource reason) = "conversion error" from rfl]
      decide
  intro heq
  rw [heq] at hfirst'
  obtain h | h := hfirst
  all_goals
    rw [h] at hfirst'
    exact absurd hfirst' (by decide)

end Translation

/-! ## Command lines without a kind -/

/-- The command was refused because the header of a text in the file is not there. -/
def CommandError.IsHeaderError (file : String) (e : CommandError) : Prop :=
  ∃ source cause, TranslationError.IsHeaderError cause ∧ e = .ofTranslation file source cause

theorem CommandError.ofTranslation_of_isHeaderError {cause : TranslationError} (h : cause.IsHeaderError)
    (file source : String) :
    ofTranslation file source cause = .refused file (locate source 0) cause.diagnostic := by
  cases cause with
  | headerMismatch | headerMissing => rfl
  | framing | malformed | generation | resource => exact h.elim

theorem CommandError.IsHeaderError.exists_refused {file : String} {e : CommandError}
    (h : e.IsHeaderError file) : ∃ place reason, e = .refused file place reason := by
  obtain ⟨source, cause, hcause, rfl⟩ := h
  exact ⟨_, _, ofTranslation_of_isHeaderError hcause file source⟩

/-- The complaint about a translation that was refused for something else is not about a header. -/
theorem CommandError.not_isHeaderError_ofTranslation (file source : String) {cause : TranslationError}
    (h : ¬ cause.IsHeaderError) : ¬ (ofTranslation file source cause).IsHeaderError file := by
  rintro ⟨source', cause', hcause', heq⟩
  rw [ofTranslation_of_isHeaderError hcause', ofTranslation] at heq
  split at heq
  · injection heq with _ _ hdiagnostic
    exact hcause'.diagnostic_ne h hdiagnostic
  · cases heq

section Run

variable {σ : Type} [FileStore (StateM σ)] {config : Config} {file : String} {output : Option String}
  {s : σ} {e : CommandError}

theorem run_translateFile (config : Config) (file : String) (kind : Option ProgramKind) (s : σ) :
    ((translateFile config file kind : StateM σ _).run s).1 =
      match ((FileStore.readText? file : StateM σ (Option String)).run s).1 with
      | none => .error (.unreadable file)
      | some source =>
        match kind.or (Header.detectKind source) with
        | none => .error (.noHeader file)
        | some kind =>
          match translate config.translator source kind with
          | .ok text => .ok (kind, text)
          | .error e => .error (.ofTranslation file source e) := by
  rw [translateFile, FileStore.run_bind]
  cases ((FileStore.readText? file : StateM σ (Option String)).run s).1 with
  | none => rfl
  | some source =>
    dsimp only
    cases kind.or (Header.detectKind source) with
    | none => rfl
    | some kind =>
      dsimp only
      cases translate config.translator source kind <;> rfl

theorem unwritable_of_run_deliver {text : String}
    (h : ((deliver output text : StateM σ Outcome).run s).1 = .failed e) :
    ∃ path, e = .unwritable path := by
  cases output with
  | none => cases h
  | some path =>
    rw [deliver, FileStore.run_bind] at h
    split at h
    · cases h
    · cases h
      exact ⟨path, rfl⟩

theorem error_of_run_translate {kind : Option ProgramKind}
    (h : ((Command.run config (.translate file kind output) : StateM σ Outcome).run s).1 = .failed e) :
    ((translateFile config file kind : StateM σ _).run s).1 = .error e ∨ ∃ path, e = .unwritable path := by
  rw [Command.run, FileStore.run_bind] at h
  cases htranslation : ((translateFile config file kind : StateM σ _).run s).1 with
  | error e' =>
    rw [htranslation] at h
    cases h
    exact .inl rfl
  | ok shader =>
    rw [htranslation] at h
    dsimp only at h
    split at h
    · exact .inr (unwritable_of_run_deliver h)
    · exact .inr (unwritable_of_run_deliver h)

theorem not_isHeaderError_of_run_translate
    (h : ((Command.run config (.translate file none output) : StateM σ Outcome).run s).1 = .failed e) :
    ¬ e.IsHeaderError file := by
  have unplaced (hne : ∀ place reason, e ≠ .refused file place reason) : ¬ e.IsHeaderError file := by
    intro he
    obtain ⟨place, reason, heq⟩ := he.exists_refused
    exact hne place reason heq
  obtain h | ⟨path, rfl⟩ := error_of_run_translate h
  case inr => exact unplaced fun _ _ => by simp
  rw [run_translateFile] at h
  split at h
  · cases h
    exact unplaced fun _ _ => by simp
  · rename_i source _
    rw [Option.none_or] at h
    split at h
    · cases h
      exact unplaced fun _ _ => by simp
    · rename_i kind hkind
      split at h
      · cases h
      · cases h
        exact CommandError.not_isHeaderError_ofTranslation file source
          (not_isHeaderError_of_detectKind hkind ‹_›)

/-- A request that leaves the kind to the text does not fail for want of a header: the text has one, or
it is said that no program is there. -/
theorem not_isHeaderError_of_run {library : Toml.Library} {folders : UserFolders} {request : Request}
    (hcommand : request.command = .translate file none output)
    (h : ((request.run folders library : StateM σ Outcome).run s).1 = .failed e) :
    ¬ e.IsHeaderError file := by
  rw [Request.run, FileStore.run_bind] at h
  split at h
  · cases h
    intro he
    obtain ⟨_, _, heq⟩ := he.exists_refused
    cases heq
  · rw [hcommand] at h
    exact not_isHeaderError_of_run_translate h

end Run

/-! ## The two questions about a header -/

/-- **What is said about a text for a kind, and what kind is found, go together.** A text is taken for
a program of a kind if the signature of the kind stands in it, and its program starts behind the first
place where it does. Otherwise what is said depends on whether the text has a marker at all. The kind
that is found is the one whose program starts first; both never start at one place, and none is found
if the text is no program of either kind. So where the kind is left to the text, neither a translation
nor a request is ever refused for want of a header, whatever library reads the configuration. -/
theorem Header.detects (source : String) :
    (∀ kind n, classify source kind = .ok n ↔
      ∃ byte, n = byte + 10 ∧ Text.FirstAt kind.signature.toList source.toList byte) ∧
    (∀ kind, (∃ n, classify source kind = .ok n) ↔ kind.signature.toList <:+: source.toList) ∧
    (∀ kind e, classify source kind = .error e ↔ ¬ kind.signature.toList <:+: source.toList ∧
      (marker.toList <:+: source.toList ∧ e = .headerMismatch kind ∨
        ¬ marker.toList <:+: source.toList ∧ e = .headerMissing)) ∧
    (∀ kind, detectKind source = some kind ↔
      ∃ n, classify source kind = .ok n ∧ ∀ n', classify source kind.other = .ok n' → n < n') ∧
    (∀ kind n n', classify source kind = .ok n → classify source kind.other = .ok n' → n ≠ n') ∧
    (detectKind source = none ↔ ∀ kind, ∃ e, classify source kind = .error e) ∧
    (∀ settings kind e, detectKind source = some kind → translate settings source kind = .error e →
      ¬ e.IsHeaderError) ∧
    ∀ {σ : Type} [FileStore (StateM σ)] (library : Toml.Library) (folders : UserFolders)
      (request : Request) (file : String) (output : Option String) (s : σ) (e : CommandError),
      request.command = .translate file none output →
      ((request.run folders library : StateM σ Outcome).run s).1 = .failed e →
      ¬ e.IsHeaderError file :=
  ⟨fun _ _ => classify_eq_ok, fun _ => exists_classify_eq_ok, fun _ _ => classify_eq_error,
    fun _ => detectKind_eq_some, fun _ _ _ => ne_of_classify, detectKind_eq_none,
    fun _ _ _ => not_isHeaderError_of_detectKind,
    fun _ _ _ _ _ _ _ hcommand h => not_isHeaderError_of_run hcommand h⟩

/-- A text with both signatures, the first one behind one mark too many and before a letter. -/
def Header.twofold : String := "!!!ARBvp1.0x\n!!ARBfp1.0\nEND\n"

theorem Header.detects_twofold :
    classify twofold .vertex = .ok 11 ∧ classify twofold .fragment = .ok 23 ∧ (11 : Nat) ≠ 23 ∧
      detectKind twofold = some .vertex ∧
      (translate {} twofold .vertex = .error .framing ∧ ¬ TranslationError.framing.IsHeaderError) ∧
      ∃ t : FileTree, ∃ e, (((⟨none, .translate "both" none none⟩ : Request).run ⟨".", "."⟩ :
        StateM FileTree Outcome).run t).1 = .failed e ∧ ¬ e.IsHeaderError "both" := by
  obtain ⟨-, -, -, hkind, hne, -, htranslate, hrun⟩ := detects twofold
  obtain ⟨hvertex, hfragment, hframed⟩ : classify twofold .vertex = .ok 11 ∧
      classify twofold .fragment = .ok 23 ∧ isFramed twofold 11 = false := by
    rw [twofold, classify_ofList, classify_ofList, isFramed_ofList]
    decide +kernel
  have hfirst : ∀ n', classify twofold .fragment = .ok n' → 11 < n' := fun n' h => by
    rw [hfragment] at h
    cases h
    decide
  have hdetected : detectKind twofold = some .vertex := (hkind .vertex).2 ⟨11, hvertex, hfirst⟩
  have hframing : translate {} twofold .vertex = .error .framing := by
    rw [translate, readProgram, hvertex]
    simp only [bind, Except.bind, hframed]
    rfl
  let t : FileTree := (FileTree.fresh.write? "both" (Bytes.ofText twofold)).getD .fresh
  let request : Request := ⟨none, .translate "both" none none⟩
  have hfailed : ((request.run ⟨".", "."⟩ : StateM FileTree Outcome).run t).1 =
      .failed (.refused "both" ⟨1, 1⟩ "Header line must be terminated before the program body") := by
    decide +kernel
  exact ⟨hvertex, hfragment, hne .vertex 11 23 hvertex hfragment, hdetected,
    ⟨hframing, htranslate {} .vertex .framing hdetected hframing⟩, t, _, hfailed,
    hrun .builtIn ⟨".", "."⟩ request "both" none t _ rfl hfailed⟩

end ShaderAssembly
