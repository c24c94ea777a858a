import ShaderAssembly.Archive.Format
import ShaderAssembly.Proofs.Bytes
/-!
# The layout of archive files

Reading takes an archive file apart where writing has put it together.

* `Archive.header`: what stands in front of the entries;
* `Archive.Fits`: an entry whose length fits into the word for it;
* `Archive.entry?_eq_some`, `Archive.entry?_eq_none`: reading one entry;
* **`Archive.entries?_eq_some`**, **`Archive.entries?_eq_none`**: reading a number of entries;
* `Archive.entries_unique`: no byte string is laid out in two ways.
-/

namespace ShaderAssembly.Archive

/-! ## Headers -/

theorem length_signature : signature.length = signatureSize := by decide +kernel

/-- The bytes in front of `count` entries. -/
def header (count : UInt32) : Bytes :=
  signature ++ Bytes.word version ++ Bytes.word count ++ Bytes.word keySize

theorem encode_eq (a : Archive) :
    a.encode = header (UInt32.ofNat a.size) ++ a.entries.toList.flatMap encodeEntry := rfl

/-- The signature stands in front and is followed by three words. -/
theorem header_append (count : UInt32) (rest : Bytes) : header count ++ rest =
    signature ++ (Bytes.word version ++ (Bytes.word count ++ (Bytes.word keySize ++ rest))) := by
  simp only [header, List.append_assoc]

/-! ## Entries -/

/-- An entry whose length fits into the word for it. -/
def Fits (e : PipelineKey × ProgramBinary) : Prop := e.2.data.length < UInt32.size

theorem key?_eq_some {bs rest : Bytes} {key : PipelineKey} :
    key? bs = some (key, rest) ↔ bs = key.bytes ++ rest := by
  constructor
  · intro h
    unfold key? at h
    split at h
    · rename_i front rest hread
      split at h
      · cases h
        exact (Bytes.take?_eq_some.1 hread).2
      · cases h
    · cases h
  · rintro rfl
    have hread : Bytes.take? PipelineState.size (key.bytes ++ rest) = some (key.bytes, rest) :=
      Bytes.take?_eq_some.2 ⟨key.length_eq, rfl⟩
    simp only [key?, hread, key.length_eq, dif_pos]

theorem encodeEntry_append (e : PipelineKey × ProgramBinary) (rest : Bytes) :
    encodeEntry e ++ rest = e.1.bytes ++ (Bytes.word e.2.format ++
      (Bytes.word (UInt32.ofNat e.2.data.length) ++ (e.2.data ++ rest))) := by
  simp only [encodeEntry, List.append_assoc]

theorem entry?_eq_some {bs rest : Bytes} {e : PipelineKey × ProgramBinary} :
    entry? bs = some (e, rest) ↔ Fits e ∧ bs = encodeEntry e ++ rest := by
  constructor
  · intro h
    unfold entry? at h
    simp only [Option.bind_eq_bind, Option.pure_def, Option.bind_eq_some_iff] at h
    obtain ⟨⟨key, bs₁⟩, hkey, ⟨format, bs₂⟩, hformat, ⟨length, bs₃⟩, hlength, ⟨data, bs₄⟩, hdata,
      ⟨⟩⟩ := h
    obtain ⟨hsize, rfl⟩ := Bytes.take?_eq_some.1 hdata
    dsimp only at hformat hlength hsize ⊢
    refine ⟨by rw [Fits, hsize]; exact length.toNat_lt_size, ?_⟩
    rw [encodeEntry_append, key?_eq_some.1 hkey, Bytes.word?_eq_some.1 hformat,
      Bytes.word?_eq_some.1 hlength, hsize, UInt32.ofNat_toNat]
  · rintro ⟨hfits, rfl⟩
    have hsize : (UInt32.ofNat e.2.data.length).toNat = e.2.data.length :=
      UInt32.toNat_ofNat_of_lt' hfits
    unfold entry?
    simp only [encodeEntry_append, key?_eq_some.2 rfl, Bytes.word?_append, hsize,
      Bytes.take?_append, Option.bind_eq_bind, Option.bind_some, Option.pure_def]

/-- A byte string that ends before the first entry does. -/
def IsCut (bs : Bytes) : Prop := ∀ e rest, Fits e → bs ≠ encodeEntry e ++ rest

theorem entry?_eq_none {bs : Bytes} : entry? bs = none ↔ IsCut bs := by
  refine ⟨fun h e rest he hbs => ?_, fun h => Option.eq_none_iff_forall_ne_some.2 ?_⟩
  · rw [entry?_eq_some.2 ⟨he, hbs⟩] at h
    cases h
  · rintro ⟨e, rest⟩ hread
    obtain ⟨he, hbs⟩ := entry?_eq_some.1 hread
    exact h e rest he hbs

/-! ## A number of entries -/

theorem entries?_succ (n : Nat) (bs : Bytes) : entries? (n + 1) bs =
    match entry? bs with
    | some (e, rest) => (entries? n rest).map (e :: ·)
    | none => none := by
  rw [entries?]
  cases entry? bs with
  | none => rfl
  | some read =>
    dsimp only [Option.bind_eq_bind, Option.bind_some]
    cases entries? n read.2 <;> rfl

theorem entries?_eq_some {n : Nat} {bs : Bytes} {es : List (PipelineKey × ProgramBinary)} :
    entries? n bs = some es ↔
      es.length = n ∧ (∀ e ∈ es, Fits e) ∧ ∃ rest, bs = es.flatMap encodeEntry ++ rest := by
  induction n generalizing bs es with
  | zero =>
    constructor
    · rintro ⟨⟩
      exact ⟨rfl, List.forall_mem_nil _, bs, rfl⟩
    · rintro ⟨hlength, -⟩
      rw [List.length_eq_zero_iff.1 hlength, entries?]
  | succ n ih =>
    rw [entries?_succ]
    constructor
    · intro h
      split at h
      · rename_i e rest hread
        obtain ⟨es, hes, rfl⟩ := Option.map_eq_some_iff.1 h
        obtain ⟨he, rfl⟩ := entry?_eq_some.1 hread
        obtain ⟨hlength, hfits, rest, rfl⟩ := ih.1 hes
        refine ⟨by rw [List.length_cons, hlength], List.forall_mem_cons.2 ⟨he, hfits⟩, rest, ?_⟩
        rw [List.flatMap_cons, List.append_assoc]
      · cases h
    · rintro ⟨hlength, hfits, rest, rfl⟩
      obtain ⟨e, es, rfl⟩ := List.exists_cons_of_length_eq_add_one hlength
      obtain ⟨he, hes⟩ := List.forall_mem_cons.1 hfits
      rw [List.flatMap_cons, List.append_assoc, entry?_eq_some.2 ⟨he, rfl⟩]
      exact Option.map_eq_some_iff.2 ⟨es, ih.2 ⟨Nat.succ.inj hlength, hes, rest, rfl⟩, rfl⟩

theorem entries?_eq_none {n : Nat} {bs : Bytes} : entries? n bs = none ↔
    ∃ (es : List (PipelineKey × ProgramBinary)) (rest : Bytes),
      bs = es.flatMap encodeEntry ++ rest ∧ es.length < n ∧ (∀ e ∈ es, Fits e) ∧ IsCut rest := by
  induction n generalizing bs with
  | zero => exact ⟨(nomatch ·), fun ⟨_, _, _, h, _⟩ => absurd h (Nat.not_lt_zero _)⟩
  | succ n ih =>
    rw [entries?_succ]
    constructor
    · intro h
      split at h
      · rename_i e rest hread
        obtain ⟨he, rfl⟩ := entry?_eq_some.1 hread
        obtain ⟨es, rest, rfl, hlength, hfits, hcut⟩ := ih.1 (Option.map_eq_none_iff.1 h)
        refine ⟨e :: es, rest, ?_, Nat.succ_lt_succ hlength, List.forall_mem_cons.2 ⟨he, hfits⟩, hcut⟩
        rw [List.flatMap_cons, List.append_assoc]
      · exact ⟨[], bs, rfl, Nat.succ_pos n, List.forall_mem_nil _, entry?_eq_none.1 ‹_›⟩
    · rintro ⟨es, rest, rfl, hlength, hfits, hcut⟩
      cases es with
      | nil => rw [List.flatMap_nil, List.nil_append, entry?_eq_none.2 hcut]
      | cons e es =>
        obtain ⟨he, hes⟩ := List.forall_mem_cons.1 hfits
        rw [List.flatMap_cons, List.append_assoc, entry?_eq_some.2 ⟨he, rfl⟩]
        exact Option.map_eq_none_iff.2 (ih.2 ⟨es, rest, rfl, Nat.lt_of_succ_lt_succ hlength, hes, hcut⟩)

/-- As many entries as are known to be there can be read in one way only. -/
theorem entries_unique {es es' : List (PipelineKey × ProgramBinary)} {rest rest' : Bytes}
    (hlength : es.length = es'.length) (hfits : ∀ e ∈ es, Fits e) (hfits' : ∀ e ∈ es', Fits e)
    (h : es.flatMap encodeEntry ++ rest = es'.flatMap encodeEntry ++ rest') :
    es = es' ∧ rest = rest' := by
  have hread := entries?_eq_some.2 ⟨rfl, hfits, rest, rfl⟩
  rw [h, hlength, entries?_eq_some.2 ⟨rfl, hfits', rest', rfl⟩] at hread
  cases hread
  exact ⟨rfl, List.append_cancel_left h⟩

end ShaderAssembly.Archive
