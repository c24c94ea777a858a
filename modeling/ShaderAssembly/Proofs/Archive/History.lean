import ShaderAssembly.Proofs.Archive.RoundTrip
/-!
# What an archive holds in the course of time

A history is the list of what has happened to an archive, the latest event first.

* `ArchiveEvent.apply`, `Archive.ofHistory`: the archive after a history;
* `Archive.held?`: the program that a history leaves for a key;
* `Archive.get?_ofHistory`: an archive holds what its history leaves;
* `Archive.entries_ofHistory_of_isDirty`: an archive that counts as unchanged holds what it held
  when it last was the same as a file;
* **`Archive.ofHistory_outcome`**: both, with the number of programs and what loading and saving
  are as events.
-/

namespace ShaderAssembly

/-- Something that happens to an archive. A load is given by the bytes of the file, if there are
any, and a save by whether it went well. -/
inductive ArchiveEvent where
  | insert (s : PipelineState) (b : ProgramBinary)
  | clear
  | load (file : Option Bytes)
  | save (written : Bool)
deriving DecidableEq

namespace ArchiveEvent

/-- The archive after an event. -/
def apply (a : Archive) : ArchiveEvent → Archive
  | insert s b => a.insert s b
  | clear => a.clear
  | load file => (Archive.reload file).2
  | save _ => a.settled

/-- Whether nothing from before an event is left after it. -/
def startsAfresh : ArchiveEvent → Bool
  | clear | load _ => true
  | _ => false

/-- Whether the archive counts as the same as a file after an event. -/
def synchronizes : ArchiveEvent → Bool
  | load _ | save _ => true
  | _ => false

/-- The program that an event puts in for a key. -/
def inserted? (k : PipelineKey) : ArchiveEvent → Option ProgramBinary
  | insert s b => if s.key = k then some b else none
  | _ => none

/-- The program that is read for a key in an event. -/
def loaded? (k : PipelineKey) : ArchiveEvent → Option ProgramBinary
  | load (some bs) =>
    match Archive.decode bs with
    | .ok b => b.entries.get? k
    | .error _ => none
  | _ => none

end ArchiveEvent

namespace Archive

open ArchiveEvent

/-- The archive that a new one is after a history. -/
def ofHistory : List ArchiveEvent → Archive
  | [] => empty
  | e :: es => e.apply (ofHistory es)

/-- The program that a history leaves for a key: the last one put in since the archive was last
cleared or loaded, or else the one that was loaded then. -/
def held? (es : List ArchiveEvent) (k : PipelineKey) : Option ProgramBinary :=
  ((es.takeWhile (!·.startsAfresh)).findSome? (inserted? k)).or
    ((es.find? startsAfresh).bind (loaded? k))

variable {e : ArchiveEvent} {es : List ArchiveEvent} {k : PipelineKey}

/-! ## Programs -/

theorem held?_cons_of_startsAfresh (h : e.startsAfresh = true) : held? (e :: es) k = e.loaded? k := by
  simp [held?, h]

theorem held?_cons (h : e.startsAfresh = false) :
    held? (e :: es) k = (e.inserted? k).or (held? es k) := by
  simp only [held?, List.takeWhile_cons, h, Bool.not_false, if_true, List.findSome?_cons,
    List.find?_cons]
  cases e.inserted? k <;> rfl

theorem get?_reload (file : Option Bytes) (k : PipelineKey) :
    (reload file).2.entries.get? k = (ArchiveEvent.load file).loaded? k := by
  cases file with
  | none => rfl
  | some bs =>
    rw [reload, loaded?, Option.map_some, decode]
    cases decodeEntries bs <;> rfl

theorem get?_apply (a : Archive) (e : ArchiveEvent) (k : PipelineKey) :
    (e.apply a).entries.get? k =
      if e.startsAfresh then e.loaded? k else (e.inserted? k).or (a.entries.get? k) := by
  cases e with
  | insert s b =>
    by_cases h : s.key = k <;> simp [apply, Archive.insert, startsAfresh, inserted?, h]
  | clear => rfl
  | load file => exact get?_reload file k
  | save written => rfl

theorem get?_ofHistory (es : List ArchiveEvent) (k : PipelineKey) :
    (ofHistory es).entries.get? k = held? es k := by
  induction es with
  | nil => rfl
  | cons e es ih =>
    rw [ofHistory, get?_apply, ih]
    cases h : e.startsAfresh with
    | true => exact (held?_cons_of_startsAfresh h).symm
    | false => exact (held?_cons h).symm

/-! ## Changes -/

theorem entries_of_isEmpty {a : Archive} (h : a.isEmpty = true) : a.entries = .empty :=
  SortedMap.ext_get? fun k => by
    rw [isEmpty, List.isEmpty_iff] at h
    rw [SortedMap.get?, h]
    rfl

/-- An event that neither is a load or save nor changes the contents leaves the archive unchanged;
any other event but these two marks it. -/
theorem isDirty_apply (a : Archive) (he : e.synchronizes = false) (h : (e.apply a).isDirty = false) :
    a.isDirty = false ∧ (e.apply a).entries = a.entries := by
  cases e with
  | insert s b => cases h
  | clear =>
    obtain ⟨hdirty, hempty⟩ := Bool.or_eq_false_iff.1 h
    exact ⟨hdirty, (entries_of_isEmpty (by simpa using hempty)).symm⟩
  | load file => cases he
  | save written => cases he

theorem entries_ofHistory_of_isDirty (h : (ofHistory es).isDirty = false) :
    (ofHistory es).entries = (ofHistory (es.dropWhile (!·.synchronizes))).entries := by
  induction es with
  | nil => rfl
  | cons e es ih =>
    rw [List.dropWhile_cons]
    cases he : e.synchronizes with
    | true => rfl
    | false =>
      obtain ⟨hdirty, hentries⟩ := isDirty_apply _ he h
      exact hentries.trans (ih hdirty)

/-! ## Numbers -/

/-- The keys of the programs, each once. -/
def keys (a : Archive) : List PipelineKey := a.entries.toList.map (·.1)

theorem length_keys (a : Archive) : a.keys.length = a.size := List.length_map _

theorem nodup_keys (a : Archive) : a.keys.Nodup :=
  List.pairwise_map.2 (a.entries.sorted.imp KeyOrder.ne_of_lt)

theorem mem_keys {a : Archive} : k ∈ a.keys ↔ (a.entries.get? k).isSome := by
  rw [SortedMap.get?, SortedMap.find?_eq_lookup, List.lookup_isSome_iff]
  simp [keys, SortedMap.toList]

/-! ## Files -/

theorem reload_eq_true {file : Option Bytes} :
    (reload file).1 = true ↔ ∃ bs b, file = some bs ∧ decode bs = .ok b := by
  cases file with
  | none => simp [reload]
  | some bs =>
    rw [reload, Option.map_some]
    cases h : decodeEntries bs <;> simp [decode_eq_ok, h]

theorem reload_of_eq_false {file : Option Bytes} (h : (reload file).1 = false) :
    (reload file).2 = empty := by
  unfold reload at h ⊢
  split at h
  · cases h
  · rfl

/-- Whether saving goes well or not, the archive counts as the same as the file. -/
theorem run_save_snd {σ : Type} [FileStore (StateM σ)] (a : Archive) (path : String) (s : σ) :
    ((a.save path : StateM σ (Bool × Archive)).run s).1.2 = a.settled := by
  rw [run_save]
  split <;> rfl

/-- After any history an archive holds for each state what was last put in or else loaded, and no
other programs. Where it counts as unchanged, it holds what it held after the last load or save. What
loading and saving do to an archive are events of its history, and a load that fails leaves nothing. -/
theorem ofHistory_outcome (es : List ArchiveEvent) :
    (∀ s : PipelineState, (ofHistory es).lookup? s = held? es s.key) ∧
    (∃ keys : List PipelineKey, keys.Nodup ∧ keys.length = (ofHistory es).size ∧
      ∀ k, k ∈ keys ↔ (held? es k).isSome) ∧
    ((ofHistory es).isDirty = false →
      (ofHistory es).entries = (ofHistory (es.dropWhile (!·.synchronizes))).entries) ∧
    ∀ {σ : Type} [FileStore (StateM σ)] (path : String) (s : σ),
      (let file := ((FileStore.read? path : StateM σ (Option Bytes)).run s).1
       let (found, a) := ((load path : StateM σ (Bool × Archive)).run s).1
       a = ofHistory (.load file :: es) ∧
         (found = true ↔ ∃ bs b, file = some bs ∧ decode bs = .ok b) ∧ (found = false → a = empty)) ∧
      (let (written, a) := (((ofHistory es).save path : StateM σ (Bool × Archive)).run s).1
       a = ofHistory (.save written :: es) ∧ a.entries = (ofHistory es).entries) := by
  refine ⟨fun s => get?_ofHistory es s.key, ⟨(ofHistory es).keys, nodup_keys _, length_keys _,
    fun k => ?_⟩, entries_ofHistory_of_isDirty, fun path s => ⟨⟨rfl, reload_eq_true,
      reload_of_eq_false⟩, ?_, ?_⟩⟩
  · rw [mem_keys, get?_ofHistory]
  · exact run_save_snd _ path s
  · exact (congrArg Archive.entries (run_save_snd (ofHistory es) path s)).trans rfl

/-- A program that has been loaded is replaced, and a save then fails. -/
def replaced : List ArchiveEvent :=
  [.save false, .insert default ⟨2, []⟩, .load (some single.encode)]

theorem ofHistory_replaced :
    (ofHistory replaced).lookup? default = some ⟨2, []⟩ ∧ (ofHistory replaced).isDirty = false ∧
      (ofHistory replaced).entries =
        (ofHistory (replaced.dropWhile (!·.synchronizes))).entries ∧
      ((load "none.psa" : StateM FileTree (Bool × Archive)).run .fresh).1.1 = false ∧
      ((load "none.psa" : StateM FileTree (Bool × Archive)).run .fresh).1.2 = empty := by
  obtain ⟨hlookup, -, hdirty, hfile⟩ := ofHistory_outcome replaced
  have hload : ((load "none.psa" : StateM FileTree (Bool × Archive)).run .fresh).1.1 = false := by
    decide +kernel
  exact ⟨(hlookup default).trans rfl, rfl, hdirty rfl, hload, (hfile "none.psa" FileTree.fresh).1.2.2 hload⟩

end Archive

end ShaderAssembly
