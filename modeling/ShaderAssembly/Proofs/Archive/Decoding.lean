import ShaderAssembly.Proofs.Archive.Layout
/-!
# What archive files are read as

A byte string is either laid out as an archive or has a first fault, and reading it tells which.

* `Archive.IsLaidOut`: byte strings that are archives of given entries;
* `Archive.FirstFault`: what is wrong first with a byte string, in reading order;
* `Archive.decodeEntries_of_isLaidOut`, `Archive.decodeEntries_of_firstFault`: what they are read as;
* `Archive.exists_firstFault_or_isLaidOut`: there is no third case;
* **`Archive.decode_outcome`**: reading accepts the archives and names the first fault of anything
  else; a file that has been cut off is always found out.
-/

namespace ShaderAssembly.Archive

/-! ## Archives and faults -/

/-- A byte string that is laid out as an archive of the given entries. Any bytes may follow. -/
def IsLaidOut (d : Bytes) (es : List (PipelineKey × ProgramBinary)) : Prop :=
  ∃ (count : UInt32) (rest : Bytes), d = header count ++ es.flatMap encodeEntry ++ rest ∧
    es.length = count.toNat ∧ ∀ e ∈ es, Fits e

/-- What is wrong first with a byte string: the bytes end before a field or before an entry does, or
a field holds something else than it should. -/
inductive FirstFault (d : Bytes) : ArchiveError → Prop
  | noSignature : d.length < signatureSize → FirstFault d (.truncated d.length)
  | badSignature {front rest : Bytes} : d = front ++ rest → front.length = signatureSize →
      front ≠ signature → FirstFault d .badSignature
  | noVersion {rest : Bytes} : d = signature ++ rest → rest.length < 4 →
      FirstFault d (.truncated d.length)
  | badVersion {found : UInt32} {rest : Bytes} : d = signature ++ (Bytes.word found ++ rest) →
      found ≠ version → FirstFault d (.versionMismatch found version)
  | noSizes {rest : Bytes} : d = signature ++ (Bytes.word version ++ rest) → rest.length < 8 →
      FirstFault d (.truncated d.length)
  | badKeySize {count found : UInt32} {rest : Bytes} :
      d = signature ++ (Bytes.word version ++ (Bytes.word count ++ (Bytes.word found ++ rest))) →
      found ≠ keySize → FirstFault d (.keySizeMismatch found keySize)
  | noEntry {count : UInt32} {es : List (PipelineKey × ProgramBinary)} {rest : Bytes} :
      d = header count ++ es.flatMap encodeEntry ++ rest → es.length < count.toNat →
      (∀ e ∈ es, Fits e) → IsCut rest → FirstFault d (.truncated d.length)

variable {d : Bytes} {es : List (PipelineKey × ProgramBinary)} {e : ArchiveError}

/-! ## What they are read as -/

theorem take?_signature (rest : Bytes) :
    Bytes.take? signatureSize (signature ++ rest) = some (signature, rest) :=
  Bytes.take?_eq_some.2 ⟨length_signature, rfl⟩

theorem decodeEntries_of_isLaidOut (h : IsLaidOut d es) :
    decodeEntries d = .ok (SortedMap.ofList es) := by
  obtain ⟨count, rest, rfl, hlength, hfits⟩ := h
  have hread := entries?_eq_some.2 ⟨hlength, hfits, rest, rfl⟩
  rw [List.append_assoc, header_append]
  simp [decodeEntries, take?_signature, Bytes.word?_append, hread, bind, Except.bind, pure,
    Except.pure]

theorem decodeEntries_of_firstFault (h : FirstFault d e) : decodeEntries d = .error e := by
  cases h with
  | noSignature h => simp [decodeEntries, Bytes.take?_eq_none.2 h, bind, Except.bind]
  | badSignature hd hlength hne =>
    simp [decodeEntries, Bytes.take?_eq_some.2 ⟨hlength, hd⟩, hne, bind, Except.bind, throw,
      throwThe, MonadExceptOf.throw]
  | noVersion hd h =>
    simp [decodeEntries, hd, take?_signature, Bytes.word?_eq_none.2 h, bind, Except.bind]
  | badVersion hd hne =>
    simp [decodeEntries, hd, take?_signature, Bytes.word?_append, hne, bind, Except.bind, throw,
      throwThe, MonadExceptOf.throw]
  | @noSizes rest hd h =>
    cases hcount : Bytes.word? rest with
    | none =>
      simp [decodeEntries, hd, take?_signature, Bytes.word?_append, hcount, bind, Except.bind]
    | some read =>
      -- the word that is there is the number of entries, so that the key size is missing
      obtain ⟨count, rest'⟩ := read
      obtain rfl := Bytes.word?_eq_some.1 hcount
      have hsize : Bytes.word? rest' = none := Bytes.word?_eq_none.2 (by
        rw [List.length_append, Bytes.length_word] at h
        omega)
      simp [decodeEntries, hd, take?_signature, Bytes.word?_append, hsize, bind, Except.bind]
  | badKeySize hd hne =>
    simp [decodeEntries, hd, take?_signature, Bytes.word?_append, hne, bind, Except.bind, throw,
      throwThe, MonadExceptOf.throw]
  | noEntry hd hlength hfits hcut =>
    have hread := entries?_eq_none.2 ⟨_, _, rfl, hlength, hfits, hcut⟩
    rw [List.append_assoc, header_append] at hd
    simp [decodeEntries, hd, take?_signature, Bytes.word?_append, hread, bind, Except.bind]

theorem exists_eq_words_append {bs : Bytes} (h : 8 ≤ bs.length) :
    ∃ m n rest, bs = Bytes.word m ++ (Bytes.word n ++ rest) := by
  cases hm : Bytes.word? bs with
  | none => have := Bytes.word?_eq_none.1 hm; omega
  | some read =>
    obtain ⟨m, bs'⟩ := read
    obtain rfl := Bytes.word?_eq_some.1 hm
    cases hn : Bytes.word? bs' with
    | none =>
      have := Bytes.word?_eq_none.1 hn
      rw [List.length_append, Bytes.length_word] at h
      omega
    | some read =>
      obtain ⟨n, rest⟩ := read
      obtain rfl := Bytes.word?_eq_some.1 hn
      exact ⟨m, n, rest, rfl⟩

theorem exists_firstFault_or_isLaidOut (d : Bytes) :
    (∃ e, FirstFault d e) ∨ ∃ es, IsLaidOut d es := by
  cases hsignature : Bytes.take? signatureSize d with
  | none => exact .inl ⟨_, .noSignature (Bytes.take?_eq_none.1 hsignature)⟩
  | some read =>
    obtain ⟨front, rest⟩ := read
    obtain ⟨hlength, hd⟩ := Bytes.take?_eq_some.1 hsignature
    by_cases hfront : front = signature
    case neg => exact .inl ⟨_, .badSignature hd hlength hfront⟩
    subst hfront
    cases hversion : Bytes.word? rest with
    | none => exact .inl ⟨_, .noVersion hd (Bytes.word?_eq_none.1 hversion)⟩
    | some read =>
      obtain ⟨found, rest⟩ := read
      obtain rfl := Bytes.word?_eq_some.1 hversion
      by_cases hfound : found = version
      case neg => exact .inl ⟨_, .badVersion hd hfound⟩
      subst hfound
      by_cases hshort : rest.length < 8
      · exact .inl ⟨_, .noSizes hd hshort⟩
      obtain ⟨count, found, rest, rfl⟩ := exists_eq_words_append (Nat.le_of_not_lt hshort)
      by_cases hfound : found = keySize
      case neg => exact .inl ⟨_, .badKeySize hd hfound⟩
      subst hfound
      rw [← header_append] at hd
      cases hentries : entries? count.toNat rest with
      | none =>
        obtain ⟨es, rest, rfl, hlength, hfits, hcut⟩ := entries?_eq_none.1 hentries
        exact .inl ⟨_, .noEntry (by rw [hd, List.append_assoc]) hlength hfits hcut⟩
      | some es =>
        obtain ⟨hlength, hfits, rest, rfl⟩ := entries?_eq_some.1 hentries
        exact .inr ⟨es, count, rest, by rw [hd, List.append_assoc], hlength, hfits⟩

/-! ## Archives that have been cut off -/

/-- What follows a fault does not matter, unless it is the end of the bytes that is at fault. -/
theorem FirstFault.append (h : FirstFault d e) (he : e ≠ .truncated d.length) (more : Bytes) :
    FirstFault (d ++ more) e := by
  cases h with
  | noSignature => exact absurd rfl he
  | badSignature hd hlength hne => exact .badSignature (by rw [hd, List.append_assoc]) hlength hne
  | noVersion => exact absurd rfl he
  | badVersion hd hne => exact .badVersion (by rw [hd]; simp only [List.append_assoc]; rfl) hne
  | noSizes => exact absurd rfl he
  | badKeySize hd hne => exact .badKeySize (by rw [hd]; simp only [List.append_assoc]; rfl) hne
  | noEntry => exact absurd rfl he

theorem header_append_inj {count count' : UInt32} {rest rest' : Bytes}
    (h : header count ++ rest = header count' ++ rest') : count = count' ∧ rest = rest' := by
  rw [header_append, header_append] at h
  have hwords := List.append_cancel_left (List.append_cancel_left h)
  obtain ⟨rfl, hrest⟩ := Prod.mk.inj (Option.some.inj
    ((Bytes.word?_append count _).symm.trans ((congrArg _ hwords).trans (Bytes.word?_append count' _))))
  exact ⟨rfl, List.append_cancel_left hrest⟩

/-- An archive whose number of programs and whose programs' lengths fit into words. -/
structure IsStorable (a : Archive) : Prop where
  size : a.size < UInt32.size
  entries : ∀ e ∈ a.entries.toList, Fits e

instance : DecidablePred Fits := fun e => inferInstanceAs (Decidable (e.2.data.length < UInt32.size))

instance (a : Archive) : Decidable a.IsStorable :=
  decidable_of_iff (a.size < UInt32.size ∧ ∀ e ∈ a.entries.toList, Fits e)
    ⟨fun h => ⟨h.1, h.2⟩, fun h => ⟨h.1, h.2⟩⟩

variable {a : Archive}

theorem IsStorable.length_toList (ha : a.IsStorable) :
    a.entries.toList.length = (UInt32.ofNat a.size).toNat :=
  (UInt32.toNat_ofNat_of_lt' ha.size).symm

theorem IsStorable.isLaidOut (ha : a.IsStorable) : IsLaidOut a.encode a.entries.toList :=
  ⟨_, [], by rw [encode_eq, List.append_nil], ha.length_toList, ha.entries⟩

/-- No other archive is a beginning of an archive. -/
theorem IsStorable.eq_nil (ha : a.IsStorable) {more : Bytes} (h : a.encode = d ++ more)
    (hd : IsLaidOut d es) : more = [] := by
  obtain ⟨count, rest, rfl, hlength, hfits⟩ := hd
  rw [encode_eq, List.append_assoc, List.append_assoc] at h
  obtain ⟨rfl, hentries⟩ := header_append_inj h
  rw [← List.append_nil (a.entries.toList.flatMap _)] at hentries
  have hrest := (entries_unique (ha.length_toList.trans hlength.symm) ha.entries hfits hentries).2
  exact (List.append_eq_nil_iff.1 hrest.symm).2

theorem decodeEntries_take (ha : a.IsStorable) {n : Nat} (hn : n < a.encode.length) :
    decodeEntries (a.encode.take n) = .error (.truncated n) := by
  have hcut : a.encode = a.encode.take n ++ a.encode.drop n := (List.take_append_drop n _).symm
  have hlength : (a.encode.take n).length = n := List.length_take_of_le (Nat.le_of_lt hn)
  obtain ⟨e, he⟩ | ⟨es, hes⟩ := exists_firstFault_or_isLaidOut (a.encode.take n)
  · by_cases htruncated : e = .truncated n
    · rw [decodeEntries_of_firstFault he, htruncated]
    · -- any other fault would be one of the whole archive
      have hwhole := decodeEntries_of_firstFault (he.append (by rwa [hlength]) (a.encode.drop n))
      rw [← hcut, decodeEntries_of_isLaidOut ha.isLaidOut] at hwhole
      cases hwhole
  · have := List.drop_eq_nil_iff.1 (ha.eq_nil hcut hes)
    omega

/-! ## Reading -/

theorem decode_eq_ok {b : Archive} :
    decode d = .ok b ↔ ∃ m, decodeEntries d = .ok m ∧ b = { entries := m } := by
  cases h : decodeEntries d <;> simp [decode, h, bind, Except.bind, pure, Except.pure, eq_comm]

theorem decode_eq_error : decode d = .error e ↔ decodeEntries d = .error e := by
  cases h : decodeEntries d <;> simp [decode, h, bind, Except.bind, pure, Except.pure]

theorem decode_of_isLaidOut (h : IsLaidOut d es) :
    decode d = .ok { entries := SortedMap.ofList es } :=
  decode_eq_ok.2 ⟨_, decodeEntries_of_isLaidOut h, rfl⟩

/-- Reading accepts what is laid out as an archive, whatever follows it; each key then has its last
entry. Of anything else it names the first fault, and so it finds out any archive that has been cut
off. -/
theorem decode_outcome :
    (∀ d : Bytes,
      ((∃ b, decode d = .ok b) ↔ ∃ es, IsLaidOut d es) ∧
      (∀ es, IsLaidOut d es → ∃ b, decode d = .ok b ∧ b.isDirty = false ∧
        ∀ key, b.entries.get? key = es.reverse.lookup key) ∧
      ∀ e, decode d = .error e ↔ FirstFault d e) ∧
    ∀ a : Archive, a.IsStorable → ∀ n < a.encode.length,
      decode (a.encode.take n) = .error (.truncated n) := by
  refine ⟨fun d => ⟨⟨?accepted, ?laidOut⟩, ?lastEntry, fun e => ⟨?named, ?fault⟩⟩, ?cutOff⟩
  case accepted =>
    rintro ⟨b, hb⟩
    obtain ⟨e, he⟩ | hes := exists_firstFault_or_isLaidOut d
    · rw [decode_eq_error.2 (decodeEntries_of_firstFault he)] at hb
      cases hb
    · exact hes
  case laidOut =>
    rintro ⟨es, hes⟩
    exact ⟨_, decode_of_isLaidOut hes⟩
  case lastEntry =>
    exact fun es hes => ⟨_, decode_of_isLaidOut hes, rfl, fun key => SortedMap.get?_ofList es key⟩
  case named =>
    intro hd
    obtain ⟨e', he'⟩ | ⟨es, hes⟩ := exists_firstFault_or_isLaidOut d
    · rw [decode_eq_error.2 (decodeEntries_of_firstFault he')] at hd
      cases hd
      exact he'
    · rw [decode_of_isLaidOut hes] at hd
      cases hd
  case fault => exact fun he => decode_eq_error.2 (decodeEntries_of_firstFault he)
  case cutOff => exact fun a ha n hn => decode_eq_error.2 (decodeEntries_take ha hn)

/-- A program of one byte, kept for the first state. -/
def single : Archive := empty.insert default ⟨1, [7]⟩

/-- Two entries with one key and a byte behind them. -/
def twoEntries : Bytes :=
  header 2
    ++ [((default : PipelineState).key, ⟨1, [7]⟩), ((default : PipelineState).key, ⟨2, []⟩)].flatMap
      encodeEntry
    ++ [9]

theorem decode_twoEntries :
    (∃ b, decode twoEntries = .ok b ∧ b.entries.get? (default : PipelineState).key = some ⟨2, []⟩) ∧
      single.IsStorable ∧ 100 < single.encode.length ∧
      decode (single.encode.take 100) = .error (.truncated 100) := by
  have hlaid : IsLaidOut twoEntries [((default : PipelineState).key, ⟨1, [7]⟩),
      ((default : PipelineState).key, ⟨2, []⟩)] := ⟨2, [9], rfl, rfl, by decide⟩
  obtain ⟨b, hb, -, hget⟩ := (decode_outcome.1 _).2.1 _ hlaid
  have hstorable : single.IsStorable := by decide +kernel
  have hlength : 100 < single.encode.length := by decide +kernel
  exact ⟨⟨b, hb, (hget _).trans (by decide +kernel)⟩, hstorable, hlength,
    decode_outcome.2 single hstorable 100 hlength⟩

end ShaderAssembly.Archive
