import ShaderAssembly.Archive.File
import ShaderAssembly.Proofs.Archive.Decoding
import ShaderAssembly.Proofs.Files.Tree
/-!
# Archives that are written and read again

* `Archive.Restores`: an archive that has come back as it was;
* `Archive.decode_encode`: reading undoes writing;
* `Archive.run_save`, `Archive.run_load`: what saving and loading do to a store;
* **`Archive.restores_of_isStorable`**: an archive comes back from its bytes, and from a store
  that keeps what is written.
-/

namespace ShaderAssembly.Archive

/-- The archive `b` has the contents of `a`, and counts as unchanged. -/
structure Restores (b a : Archive) : Prop where
  isDirty : b.isDirty = false
  size : b.size = a.size
  lookup? : ∀ s : PipelineState, b.lookup? s = a.lookup? s

theorem settled_restores (a : Archive) : a.settled.Restores a := ⟨rfl, rfl, fun _ => rfl⟩

variable {a : Archive}

theorem decodeEntries_encode (ha : a.IsStorable) : decodeEntries a.encode = .ok a.entries := by
  rw [decodeEntries_of_isLaidOut ha.isLaidOut, SortedMap.ofList_toList]

theorem decode_encode (ha : a.IsStorable) : decode a.encode = .ok a.settled :=
  decode_eq_ok.2 ⟨_, decodeEntries_encode ha, rfl⟩

theorem reload_encode (ha : a.IsStorable) : reload (some a.encode) = (true, a.settled) := by
  rw [reload, Option.map_some, decodeEntries_encode ha]
  rfl

section Store

variable {σ : Type} [FileStore (StateM σ)] {path : String} {s s' : σ}

theorem run_load (path : String) (s : σ) :
    ((load path : StateM σ (Bool × Archive)).run s).1 =
      reload ((FileStore.read? path : StateM σ (Option Bytes)).run s).1 := rfl

theorem run_save (a : Archive) (path : String) (s : σ) :
    (a.save path : StateM σ (Bool × Archive)).run s =
      match (FileStore.ensureParent path : StateM σ Bool).run s with
      | (true, s₁) =>
        let written := (FileStore.write path a.encode : StateM σ Bool).run s₁
        ((written.1, a.settled), written.2)
      | (false, s₁) => ((false, a.settled), s₁) := by
  rw [save, StateT.run_bind]
  obtain ⟨made, s₁⟩ := (FileStore.ensureParent path : StateM σ Bool).run s
  cases made <;> rfl

/-- Where saving goes well, the bytes have been written. -/
theorem exists_write_of_run_save {saved : Archive}
    (h : (a.save path : StateM σ (Bool × Archive)).run s = ((true, saved), s')) :
    ∃ s₁, (FileStore.ensureParent path : StateM σ Bool).run s = (true, s₁) ∧
      (FileStore.write path a.encode : StateM σ Bool).run s₁ = (true, s') := by
  rw [run_save] at h
  split at h
  · rename_i s₁ hparent
    obtain ⟨hwritten, hs⟩ := Prod.mk.inj h
    exact ⟨s₁, hparent, Prod.ext (Prod.mk.inj hwritten).1 hs⟩
  · cases h

theorem run_load_of_run_save (ha : a.IsStorable)
    (hkeeps : FileStore.Keeps path ((FileStore.ensureParent path : StateM σ Bool).run s).2)
    {saved : Archive} (hsave : (a.save path : StateM σ (Bool × Archive)).run s = ((true, saved), s')) :
    ((load path : StateM σ (Bool × Archive)).run s').1 = (true, a.settled) := by
  obtain ⟨s₁, hparent, hwritten⟩ := exists_write_of_run_save hsave
  rw [hparent] at hkeeps
  rw [run_load, hkeeps a.encode s' hwritten, reload_encode ha]

end Store

/-- An archive that fits its format comes back from its bytes, and, once it has been saved to a
store that keeps what is written, from there. -/
theorem restores_of_isStorable (a : Archive) (ha : a.IsStorable) :
    (∃ b, decode a.encode = .ok b ∧ b.Restores a) ∧
      ∀ {σ : Type} [FileStore (StateM σ)] (path : String) (s s' : σ) (saved : Archive),
        FileStore.Keeps path ((FileStore.ensureParent path : StateM σ Bool).run s).2 →
        (a.save path : StateM σ (Bool × Archive)).run s = ((true, saved), s') →
        ∃ b, ((load path : StateM σ (Bool × Archive)).run s').1 = (true, b) ∧ b.Restores a :=
  ⟨⟨_, decode_encode ha, a.settled_restores⟩, fun _ _ _ _ hkeeps hsave =>
    ⟨_, run_load_of_run_save ha hkeeps hsave, a.settled_restores⟩⟩

/-- Programs for three states, put in out of the order of their keys, and one of them without bytes. -/
def several : Archive :=
  ((empty.insert { fogMode := 2 } ⟨3, [7, 8, 9]⟩).insert default ⟨1, [7]⟩).insert
    (PipelineState.setFlags default (.ofBits 1)) ⟨2, []⟩

theorem restores_several :
    several.IsStorable ∧ several.size = 3 ∧
      (∃ b, decode several.encode = .ok b ∧ b.Restores several ∧
        b.lookup? { fogMode := 2 } = some ⟨3, [7, 8, 9]⟩ ∧ b.lookup? { fogMode := 3 } = none) ∧
      ∃ t saved, (several.save "programs.psa" : StateM FileTree (Bool × Archive)).run .fresh =
          ((true, saved), t) ∧
        ∃ b, ((load "programs.psa" : StateM FileTree (Bool × Archive)).run t).1 = (true, b) ∧
          b.Restores several := by
  have hstorable : several.IsStorable := by decide +kernel
  have hkeeps : FileStore.Keeps "programs.psa"
      ((FileStore.ensureParent "programs.psa" : StateM FileTree Bool).run .fresh).2 :=
    FileTree.keeps (by decide +kernel)
  have hsaved :
      ((several.save "programs.psa" : StateM FileTree (Bool × Archive)).run .fresh).1.1 = true := by
    decide +kernel
  obtain ⟨⟨b, hread, hrestores⟩, hstore⟩ := restores_of_isStorable several hstorable
  refine ⟨hstorable, by decide +kernel, ⟨b, hread, hrestores, ?_, ?_⟩, _, _,
    Prod.ext (Prod.ext hsaved rfl) rfl, ?_⟩
  · rw [hrestores.lookup?]
    decide +kernel
  · rw [hrestores.lookup?]
    decide +kernel
  · exact hstore "programs.psa" .fresh _ _ hkeeps (Prod.ext (Prod.ext hsaved rfl) rfl)

end ShaderAssembly.Archive
