import ShaderAssembly.Files.Tree
/-!
# Keeping files

What has been written under a path is found there again.

* `FileStore.Keeps`: a store that keeps what is written under a path;
* `FileStore.Holds`, `FileStore.Retains`: the same for a store that is asked for the file first;
* `FileTree.walk?_put`: walks are not affected by a change of a file;
* **`FileTree.keeps`**, **`FileTree.retains`**: a tree keeps what is written under any path that is
  not one of a device.
-/

namespace ShaderAssembly

theorem FileStore.run_bind {σ α β : Type} (x : StateM σ α) (f : α → StateM σ β) (s : σ) :
    (x >>= f).run s = (f (x.run s).1).run (x.run s).2 := rfl

/-- Whatever is written under a path can be read there afterwards. -/
def FileStore.Keeps {σ : Type} [FileStore (StateM σ)] (path : String) (s : σ) : Prop :=
  ∀ data s', (FileStore.write path data : StateM σ Bool).run s = (true, s') →
    ((FileStore.read? path : StateM σ (Option Bytes)).run s').1 = some data

/-- A file with these contents is found under a path, and read after that. -/
def FileStore.Holds {σ : Type} [FileStore (StateM σ)] (path : String) (data : Bytes) (s : σ) : Prop :=
  ∃ s', (FileStore.isPresent path : StateM σ Bool).run s = (true, s') ∧
    ((FileStore.read? path : StateM σ (Option Bytes)).run s').1 = some data

/-- Whatever is written under a path is found there afterwards. -/
def FileStore.Retains {σ : Type} [FileStore (StateM σ)] (path : String) (s : σ) : Prop :=
  ∀ data s', (FileStore.write path data : StateM σ Bool).run s = (true, s') →
    FileStore.Holds path data s'

namespace FileTree

variable {t t' : FileTree} {path : String} {place : List String}

theorem node?_put (h : t.node? place ≠ some .directory) (node : FileNode) (place' : List String) :
    (t.put place node).node? place' = if place = place' then some node else t.node? place' := by
  cases place' with
  | nil =>
    -- what stands at the root is a directory, so the change is not there
    rw [if_neg fun hplace => h (by rw [hplace]; rfl)]
    rfl
  | cons name names => exact SortedMap.get?_insert t.nodes place (name :: names) node

/-- A walk goes through directories only, so it does not meet what stands in place of a file. -/
theorem walk?_put (h : t.node? place ≠ some .directory) (node : FileNode) {start target : List String}
    {names : List String} (hwalk : t.walk? start names = some target) :
    (t.put place node).walk? start names = some target := by
  induction names generalizing start with
  | nil => exact hwalk
  | cons name names ih =>
    rw [walk?] at hwalk ⊢
    split at hwalk
    · rename_i hstart
      have hne : place ≠ start := fun hplace => h (hplace ▸ hstart)
      rw [node?_put h, if_neg hne, hstart]
      dsimp only
      split at hwalk
      · rw [if_pos ‹_›, ih hwalk]
      · rename_i hup
        split at hwalk
        · rw [if_neg hup, if_pos ‹_›, ih hwalk]
        · cases hwalk
    · cases hwalk

theorem resolve?_put (h : t.node? place ≠ some .directory) (node : FileNode)
    (hpath : t.resolve? path = some place) : (t.put place node).resolve? path = some place := by
  unfold resolve? at hpath ⊢
  dsimp only at hpath ⊢
  split at hpath
  · rw [if_pos ‹_›]
    exact walk?_put h node hpath
  · cases hpath

theorem read?_of_write? {data : Bytes} (hdevice : ∀ accepts, t.nodeAt? path ≠ some (.device accepts))
    (hwrite : t.write? path data = some t') : t'.read? path = some data := by
  rw [write?] at hwrite
  split at hwrite
  · cases hwrite
  · rename_i place hpath
    split at hwrite
    · cases hwrite
    · rename_i hname
      have hat (t : FileTree) (hpath : t.resolve? path = some place) :
          t.nodeAt? path = t.node? place := by
        simp only [nodeAt?, hpath, Option.bind_some, if_neg hname]
        split <;> simp only [*]
      rw [hat t hpath] at hdevice
      split at hwrite
      · cases hwrite
      · exact absurd ‹_› (hdevice _)
      · rename_i hdirectory _
        cases hwrite
        rw [read?, hat _ (resolve?_put hdirectory _ hpath), node?_put hdirectory, if_pos rfl]

theorem run_write (t : FileTree) (path : String) (data : Bytes) :
    (FileStore.write path data : StateM FileTree Bool).run t =
      match t.write? path data with
      | some t' => (true, t')
      | none => (false, t) := by
  simp only [FileStore.write, StateT.run_bind, StateT.run_get, pure_bind]
  cases t.write? path data <;> rfl

theorem keeps (h : ∀ accepts, t.nodeAt? path ≠ some (.device accepts)) : FileStore.Keeps path t := by
  intro data t' hwrite
  have hkept : t.write? path data = some t' := by
    rw [run_write] at hwrite
    split at hwrite
    · cases hwrite
      assumption
    · cases hwrite
  exact read?_of_write? h hkept

theorem holds_of_read? {data : Bytes} (h : t.read? path = some data) : FileStore.Holds path data t := by
  have hpresent : (t.nodeAt? path).isSome = true := by
    unfold read? at h
    cases e : t.nodeAt? path with
    | none =>
      rw [e] at h
      cases h
    | some node => rfl
  exact ⟨t, congrArg (·, t) hpresent, h⟩

/-- A tree retains what is written under a path, unless a device stands there. -/
theorem retains (h : ∀ accepts, t.nodeAt? path ≠ some (.device accepts)) :
    FileStore.Retains path t := fun data t' hwrite => holds_of_read? (keeps h data t' hwrite)

end FileTree

end ShaderAssembly
