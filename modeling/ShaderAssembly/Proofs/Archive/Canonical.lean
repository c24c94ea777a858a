import Mathlib.Data.List.Flatten
import Mathlib.Data.List.Perm.Subperm
import ShaderAssembly.Proofs.Archive.History
import ShaderAssembly.Proofs.PipelineState
/-!
# Archive files as canonical forms

The bytes of an archive depend on its contents only, and no two contents have the same bytes. Reading
a file and writing it again drops what the archive does not hold.

* `SortedMap.toList_ofList_subperm`: which entries of a list are kept;
* `Archive.encodeSorted`: the bytes of programs that are given in any order;
* `Archive.SplitsInto`: the entries of a file, and the bytes behind them;
* `SplitsInto.length_encode_le`, `SplitsInto.encode_eq_iff`: a file that is read and written again;
* **`Archive.encode_canonical`**: all of this for archives with any history.
-/

namespace ShaderAssembly

/-! ## Entries of a list -/

namespace SortedMap

variable {κ ν : Type} [LT κ] [DecidableLT κ] [DecidableEq κ] [KeyOrder κ]

theorem toList_ofList_subperm (es : List (κ × ν)) : (ofList es).toList.Subperm es := by
  refine List.subperm_of_subset (nodup_toList _) fun e he => ?_
  obtain hes | hempty := mem_foldl_insert he
  · exact hes
  · cases hempty

end SortedMap

namespace Archive

variable {a b : Archive} {d : Bytes} {es : List (PipelineKey × ProgramBinary)} {rest : Bytes}

/-! ## Programs in any order -/

/-- Programs as the bytes of an archive file, put into the order of their keys. -/
def encodeSorted (es : List (PipelineKey × ProgramBinary)) : Bytes :=
  header (UInt32.ofNat es.length)
  ++ (es.mergeSort fun e e' => !decide (e'.1 < e.1)).flatMap encodeEntry

theorem mergeSort_eq_toList (h : es.Perm a.entries.toList) :
    es.mergeSort (fun e e' => !decide (e'.1 < e.1)) = a.entries.toList := by
  have hperm := (List.mergeSort_perm es fun e e' => !decide (e'.1 < e.1)).trans h
  have htrans (e e' e'' : PipelineKey × ProgramBinary) (h : !decide (e'.1 < e.1))
      (h' : !decide (e''.1 < e'.1)) : !decide (e''.1 < e.1) := by
    simp only [Bool.not_eq_true', decide_eq_false_iff_not] at h h' ⊢
    exact KeyOrder.not_lt_trans h h'
  have htotal (e e' : PipelineKey × ProgramBinary) :
      !decide (e'.1 < e.1) || !decide (e.1 < e'.1) := by
    simpa [← imp_iff_not_or] using fun hlt => KeyOrder.lt_asymm hlt
  refine hperm.eq_of_pairwise (fun e e' he he' hle hle' => ?_)
    (List.pairwise_mergeSort htrans htotal es) (a.entries.sorted.imp fun hlt => ?_)
  · -- neither key is less, so they are the same, and each key has one program
    have hkey : e.1 = e'.1 := by
      by_contra hne
      simp only [Bool.not_eq_true', decide_eq_false_iff_not] at hle hle'
      exact hle (KeyOrder.connected hle' hne)
    have hget := SortedMap.get?_of_mem (hperm.subset he)
    rw [hkey, SortedMap.get?_of_mem he'] at hget
    exact Prod.ext hkey (Option.some.inj hget).symm
  · simpa using KeyOrder.lt_asymm hlt

theorem encodeSorted_eq (h : es.Perm a.entries.toList) : encodeSorted es = a.encode := by
  rw [encodeSorted, mergeSort_eq_toList h, h.length_eq, encode_eq]
  rfl

/-! ## Contents -/

theorem entries_eq_of_lookup? (h : ∀ s : PipelineState, a.lookup? s = b.lookup? s) :
    a.entries = b.entries :=
  SortedMap.ext_get? fun k => by
    obtain ⟨s, rfl⟩ := PipelineState.exists_key_eq k
    exact h s

theorem encode_congr (h : a.entries = b.entries) : a.encode = b.encode := by
  rw [encode, encode, size, size, h]

/-- Archives that fit the format have the same bytes only if they have the same contents. -/
theorem entries_eq_of_encode (ha : a.IsStorable) (hb : b.IsStorable) (h : a.encode = b.encode) :
    a.entries = b.entries :=
  Except.ok.inj ((decodeEntries_encode ha).symm.trans (h ▸ decodeEntries_encode hb))

/-! ## Files that are read and written again -/

/-- The byte string consists of the entries of an archive, with their number in front, and the bytes
behind them. -/
def SplitsInto (d : Bytes) (es : List (PipelineKey × ProgramBinary)) (rest : Bytes) : Prop :=
  ∃ count : UInt32, d = header count ++ es.flatMap encodeEntry ++ rest ∧ es.length = count.toNat ∧
    ∀ e ∈ es, Fits e

theorem SplitsInto.isLaidOut (h : SplitsInto d es rest) : IsLaidOut d es := by
  obtain ⟨count, h⟩ := h
  exact ⟨count, rest, h⟩

theorem SplitsInto.unique (h : SplitsInto d es rest) {es' : List (PipelineKey × ProgramBinary)}
    {rest' : Bytes} (h' : SplitsInto d es' rest') : es = es' ∧ rest = rest' := by
  obtain ⟨count, rfl, hlength, hfits⟩ := h
  obtain ⟨count', hd, hlength', hfits'⟩ := h'
  rw [List.append_assoc, List.append_assoc] at hd
  obtain ⟨rfl, hentries⟩ := header_append_inj hd
  exact entries_unique (hlength.trans hlength'.symm) hfits hfits' hentries

theorem IsStorable.splitsInto (ha : a.IsStorable) : SplitsInto a.encode a.entries.toList [] :=
  ⟨_, by rw [encode_eq, List.append_nil], ha.length_toList, ha.entries⟩

/-- The archive that is read from entries keeps some of them, so it fits the format as they do. -/
theorem SplitsInto.isStorable (h : SplitsInto d es rest) :
    IsStorable { entries := SortedMap.ofList es } := by
  obtain ⟨count, -, hlength, hfits⟩ := h
  have hkept := SortedMap.toList_ofList_subperm es
  refine ⟨?_, fun e he => hfits e (hkept.subset he)⟩
  have hle : (SortedMap.ofList es).toList.length ≤ es.length := hkept.length_le
  exact Nat.lt_of_le_of_lt hle (hlength ▸ count.toNat_lt_size)

theorem length_header (count : UInt32) : (header count).length = signatureSize + 12 := by
  simp only [header, List.length_append, length_signature, Bytes.length_word]

theorem length_flatMap_le {es' : List (PipelineKey × ProgramBinary)} (h : es.Subperm es') :
    (es.flatMap encodeEntry).length ≤ (es'.flatMap encodeEntry).length := by
  obtain ⟨kept, hperm, hsub⟩ := h
  rw [← (hperm.flatMap_right encodeEntry).length_eq]
  exact (hsub.flatMap encodeEntry).length_le

theorem SplitsInto.length_encode_le (h : SplitsInto d es rest) :
    (encode { entries := SortedMap.ofList es }).length ≤ d.length := by
  obtain ⟨count, rfl, -⟩ := h
  have hle := length_flatMap_le (SortedMap.toList_ofList_subperm es)
  simp only [encode_eq, List.length_append, length_header]
  omega

/-- A file stays the same when it is read and written again if its keys increase and it ends with
its entries. -/
theorem SplitsInto.encode_eq_iff (h : SplitsInto d es rest) :
    encode { entries := SortedMap.ofList es } = d ↔
      (es.Pairwise fun e e' => e.1.bytes < e'.1.bytes) ∧ rest = [] := by
  constructor
  · intro hd
    obtain ⟨hkept, hrest⟩ := h.unique (hd ▸ h.isStorable.splitsInto)
    have hsorted := (SortedMap.ofList es).sorted
    rw [show (SortedMap.ofList es).entries = es from hkept.symm] at hsorted
    exact ⟨hsorted, hrest⟩
  · rintro ⟨hsorted, rfl⟩
    obtain ⟨count, rfl, hlength, -⟩ := h
    have hkept : (SortedMap.ofList es).toList = es := SortedMap.toList_ofList hsorted
    have hsize : UInt32.ofNat (size { entries := SortedMap.ofList es }) = count := by
      rw [size, SortedMap.size, show (SortedMap.ofList es).entries = es from hkept, hlength,
        UInt32.ofNat_toNat]
    rw [encode_eq, hsize, List.append_nil]
    exact congrArg (fun es => header count ++ List.flatMap encodeEntry es) hkept

theorem exists_splitsInto (h : decode d = .ok b) : ∃ es rest, SplitsInto d es rest := by
  obtain ⟨e, he⟩ | ⟨es, count, rest, hsplit⟩ := exists_firstFault_or_isLaidOut d
  · rw [decode_eq_error.2 (decodeEntries_of_firstFault he)] at h
    cases h
  · exact ⟨es, rest, count, hsplit⟩

theorem SplitsInto.eq_of_decode (h : SplitsInto d es rest) (hb : decode d = .ok b) :
    b = { entries := SortedMap.ofList es } :=
  Except.ok.inj (hb.symm.trans (decode_of_isLaidOut h.isLaidOut))

/-! ## Main statement -/

/-- **The bytes of an archive are a canonical form of its contents.** It does not matter in which order
the programs are listed for writing, histories that leave the same program for each state give the same
bytes, and within the sizes of the format different contents give different bytes. The keys in the bytes
increase. A file that can be read does not grow when it is written again, and it stays the same if its
own keys increase and it ends with its entries, but in no other case. -/
theorem encode_canonical :
    (∀ (es : List ArchiveEvent) (listed : List (PipelineKey × ProgramBinary)),
      listed.Perm (ofHistory es).entries.toList → encodeSorted listed = (ofHistory es).encode) ∧
    (∀ es es' : List ArchiveEvent,
      (∀ s : PipelineState, (ofHistory es).lookup? s = (ofHistory es').lookup? s) →
      (ofHistory es).encode = (ofHistory es').encode) ∧
    (∀ es es' : List ArchiveEvent, (ofHistory es).IsStorable → (ofHistory es').IsStorable →
      (ofHistory es).encode = (ofHistory es').encode →
      ∀ s : PipelineState, (ofHistory es).lookup? s = (ofHistory es').lookup? s) ∧
    (∀ es : List ArchiveEvent, let a := ofHistory es
      a.encode = header (UInt32.ofNat a.size) ++ a.entries.toList.flatMap encodeEntry ∧
        a.entries.toList.Pairwise fun e e' => e.1.bytes < e'.1.bytes) ∧
    ∀ (d : Bytes) (b : Archive), decode d = .ok b → (∃ es rest, SplitsInto d es rest) ∧
      ∀ es rest, SplitsInto d es rest → b.encode.length ≤ d.length ∧
        (b.encode = d ↔ (es.Pairwise fun e e' => e.1.bytes < e'.1.bytes) ∧ rest = []) := by
  refine ⟨fun es listed => encodeSorted_eq, fun es es' h => encode_congr (entries_eq_of_lookup? h),
    fun es es' hes hes' h s => ?distinct, fun es => ⟨encode_eq _, (ofHistory es).entries.sorted⟩,
    fun d b hb => ⟨exists_splitsInto hb, fun es rest hsplit => ?again⟩⟩
  case distinct => rw [lookup?, lookup?, entries_eq_of_encode hes hes' h]
  case again =>
    rw [hsplit.eq_of_decode hb]
    exact ⟨hsplit.length_encode_le, hsplit.encode_eq_iff⟩

/-- Two programs. -/
def twoInserts : List ArchiveEvent :=
  [.insert default ⟨1, [7]⟩, .insert (PipelineState.setFlags default (.ofBits 1)) ⟨2, []⟩]

theorem encode_canonical_twoInserts :
    (ofHistory twoInserts.reverse).encode = (ofHistory twoInserts).encode ∧
      (ofHistory twoInserts).IsStorable ∧
      (ofHistory twoInserts.reverse).lookup? default = (ofHistory twoInserts).lookup? default ∧
      encodeSorted (ofHistory twoInserts).entries.toList.reverse = (ofHistory twoInserts).encode ∧
      ∃ b, decode twoEntries = .ok b ∧ b.encode.length ≤ twoEntries.length ∧ b.encode ≠ twoEntries := by
  obtain ⟨hlisted, hsame, hdistinct, -, hagain⟩ := encode_canonical
  have heq : ofHistory twoInserts.reverse = ofHistory twoInserts := by decide +kernel
  have hstorable : (ofHistory twoInserts).IsStorable := by decide +kernel
  have hencode := hsame twoInserts.reverse twoInserts fun s => by rw [heq]
  have hsplit : SplitsInto twoEntries [((default : PipelineState).key, ⟨1, [7]⟩),
      ((default : PipelineState).key, ⟨2, []⟩)] [9] := ⟨2, rfl, rfl, by decide⟩
  have hread := decode_of_isLaidOut hsplit.isLaidOut
  obtain ⟨hle, hiff⟩ := (hagain _ _ hread).2 _ _ hsplit
  refine ⟨hencode, hstorable, hdistinct _ _ (heq ▸ hstorable) hstorable hencode default,
    hlisted _ _ (List.reverse_perm _), _, hread, hle, fun h => ?_⟩
  cases (hiff.1 h).2

end Archive

end ShaderAssembly
