import ShaderAssembly.Proofs.Comparison.Program
import ShaderAssembly.Proofs.Parsing.Driver
/-!
# How reading ends

A text that is read beside itself shows where its faults can lie: at the tokens that are compared.

* `Comparison.twice`: a text beside itself;
* `ProgramReader.place_of_failed`: a fault lies at a significant token or at the end of the text;
* **`readProgram_outcome`**: reading ends, with a program, or with a fault inside the text.
-/

namespace ShaderAssembly

/-- A text beside itself. The places that correspond are those of its significant tokens, and its
end. -/
def Comparison.twice (limits : Limits) (source : String) (start : Nat) : Comparison where
  limits := limits
  limits' := limits
  le := limits.le_refl
  place a b :=
    a = b ∧ ((∃ t ∈ Token.significant source start, a = t.offset) ∨ a = source.utf8ByteSize)
  word a b := a = b ∧ ∃ t ∈ Token.significant source start, a = t.offset
  place_of_word h := ⟨h.1, .inl h.2⟩
  sameText := True
  eq_of_place _ _ _ h := h.1

theorem Comparison.twice_sameTokens (limits : Limits) (source : String) (start : Nat) :
    (twice limits source start).SameTokens source start source start where
  tokens := List.forall₂_same.2 fun t ht =>
    ⟨t.offset, rfl, ⟨rfl, .inl ⟨t, ht, rfl⟩⟩, fun _ => ⟨rfl, t, ht, rfl⟩⟩
  stop := ⟨rfl, .inr rfl⟩
  source _ := rfl

variable {source : String} {kind : ProgramKind} {start : Nat} {limits : Limits}

/-- **A fault lies at a significant token or at the end of the text.** -/
theorem ProgramReader.place_of_failed {fault : Fault}
    (h : ((ofSource source start).run kind limits).status = .failed fault) :
    (∃ t ∈ Token.significant source start, fault.offset = t.offset) ∨
      fault.offset = source.utf8ByteSize := by
  obtain ⟨f', -, -, -, hplace⟩ :=
    ((Comparison.twice_sameTokens limits source start).run kind).failed_of_failed rfl h
  exact hplace

/-- Behind a signature and a blank the clamped offset of a fault lies inside the text: it is that of
a significant token, or the last byte if the fault lies at the end. -/
theorem ProgramReader.clamp_of_failed (h : Header.classify source kind = .ok start)
    (hframed : isFramed source start = true) {fault : Fault}
    (hf : ((ofSource source start).run kind limits).status = .failed fault) :
    let offset := clampOffset source.utf8ByteSize fault.offset
    start ≤ offset ∧ offset < source.utf8ByteSize ∧
      ((∃ t ∈ Token.significant source start, fault.offset = t.offset ∧ offset = t.offset) ∨
        (fault.offset = source.utf8ByteSize ∧ offset = source.utf8ByteSize - 1)) := by
  unfold clampOffset
  obtain ⟨t, ht, htoken⟩ | hend := place_of_failed hf
  · have hplace := Token.place_of_mem_significant h ht
    rw [htoken, if_neg (by omega)]
    exact ⟨hplace.1, hplace.2, .inl ⟨t, ht, rfl, rfl⟩⟩
  · obtain ⟨blank, ts, e, -⟩ := exists_of_isFramed hframed
    have hlength := Token.length_ofSource h
    rw [e, List.length_cons] at hlength
    rw [hend, if_pos (Nat.le_refl _)]
    dsimp only
    exact ⟨by omega, by omega, .inr ⟨rfl, rfl⟩⟩

/-- **Reading always ends.** The loops inside statements end by themselves, however many more rounds
they are allowed; those of a constant have room for four numbers. Without a signature, or without a
blank behind it, nothing is read. Otherwise the loop over all tokens, blanks included, stops after no
more calls than there are bytes behind the signature. What has been read then is a program, or
something was refused, at the first byte of a significant token or, if that was the end of the text,
at the last byte. -/
theorem readProgram_outcome (settings : TranslatorSettings) (source : String) (kind : ProgramKind) :
    (∀ k p more, Parse.registersWithin (settings.limits kind) k (p.cursor.rest.length + 1 + more) p =
      Parse.registers (settings.limits kind) k p) ∧
    (∀ c more, Scan.paramItemsWithin (settings.limits kind) (c.rest.length + 1 + more) c =
      Scan.paramItems (settings.limits kind) c) ∧
    match Header.classify source kind with
    | .error e => readProgram settings source kind = .error e ∧
        (e = .headerMismatch kind ∨ e = .headerMissing)
    | .ok start =>
      if isFramed source start then
        let calls := source.utf8ByteSize - start
        let r := ((Driver.ofSource source start).after kind (settings.limits kind) calls).reader
        r = (ProgramReader.ofSource source start).run kind (settings.limits kind) ∧
        match r.status with
        | .running => False
        | .done => readProgram settings source kind = .ok (r.progress.draft.toModel kind)
        | .failed fault => ∃ offset,
            readProgram settings source kind = .error (.malformed fault.cause.message offset) ∧
            start ≤ offset ∧ offset < source.utf8ByteSize ∧
            ((∃ t ∈ Token.significant source start, fault.offset = t.offset ∧ offset = t.offset) ∨
              (fault.offset = source.utf8ByteSize ∧ offset = source.utf8ByteSize - 1))
      else readProgram settings source kind = .error .framing := by
  refine ⟨fun k p more => Parse.registersWithin_eq _ (by omega) (by omega),
    fun c more => Scan.paramItemsWithin_eq _ (by omega) (by omega), ?_⟩
  cases h : Header.classify source kind with
  | error e =>
    refine ⟨by rw [readProgram, h]; rfl, ?_⟩
    unfold Header.classify at h
    split at h
    · cases h
    · split at h
      · cases h
        exact .inl rfl
      · cases h
        exact .inr rfl
  | ok start =>
    dsimp only
    by_cases hframed : isFramed source start = true
    case neg =>
      rw [if_neg hframed, readProgram, h]
      simp only [bind, Except.bind, hframed]
      rfl
    rw [if_pos hframed, Driver.reader_ofSource h hframed]
    refine ⟨rfl, ?_⟩
    split
    · exact ProgramReader.stopped_run _ ‹_›
    · exact readProgram_of_done h hframed ‹_›
    · rename_i fault hstatus
      exact ⟨_, readProgram_of_failed h hframed hstatus,
        ProgramReader.clamp_of_failed h hframed hstatus⟩

end ShaderAssembly
