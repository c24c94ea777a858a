import ShaderAssembly.Proofs.Comparison.Outcome
import ShaderAssembly.Proofs.Generation.Program
/-!
# Translations one after the other

A caller that passes the same slots to one translation after the other finds in them what the last
calls left there.

* `place_of_mem_instructions`: the instructions of a program stand in its text;
* `isPlacedIn_of_readProgram`, **`isPlacedIn_of_translate`**: so does whatever is to blame for a
  failure;
* `Slots.after`: the slots after a history of calls;
* `Slots.convert_of_ok`, `Slots.convert_of_error`: the two ways a call can end;
* `Slots.message_after`: the message is that of the latest failure;
* **`Slots.convert_outcome`**: what a call gives and leaves in the slots, whatever came before it.
-/

namespace ShaderAssembly

variable {settings : TranslatorSettings} {source : String} {kind : ProgramKind}

/-! ## Places of failures -/

theorem place_of_mem_instructions {m : Model} (h : readProgram settings source kind = .ok m)
    {i : Instruction} (hi : i ∈ m.instructions) : i.offset < source.utf8ByteSize := by
  obtain ⟨start, hstart, hframed, hdone⟩ := done_of_readProgram h
  obtain rfl := Except.ok.inj ((readProgram_of_done hstart hframed hdone).symm.trans h)
  -- the program is read beside itself, so that each instruction corresponds to itself at a token
  have hsame := (Comparison.twice_sameTokens (settings.limits kind) source start).run kind
  obtain ⟨-, hprogress⟩ := hsame.done_of_done hdone
  obtain ⟨-, -, -, t, ht, hoffset⟩ := List.forall₂_same.1 hprogress.draft.instructions i hi
  exact hoffset ▸ (Token.place_of_mem_significant hstart ht).2

/-- The error is about a byte of the text, if the text has any. -/
def TranslationError.IsPlacedIn (e : TranslationError) (source : String) : Prop :=
  ∃ byte, e.locator? = some (.offset byte) ∧ (0 < source.utf8ByteSize → byte < source.utf8ByteSize)

theorem isPlacedIn_of_readProgram {e : TranslationError}
    (h : readProgram settings source kind = .error e) : e.IsPlacedIn source := by
  cases hstart : Header.classify source kind with
  | error e' =>
    rw [readProgram, hstart] at h
    cases h
    unfold Header.classify at hstart
    split at hstart
    · cases hstart
    · split at hstart
      all_goals
        cases hstart
        exact ⟨0, rfl, id⟩
  | ok start =>
    by_cases hframed : isFramed source start = true
    case neg =>
      rw [readProgram, hstart] at h
      simp only [bind, Except.bind, hframed] at h
      cases h
      exact ⟨0, rfl, id⟩
    cases hstatus : ((ProgramReader.ofSource source start).run kind (settings.limits kind)).status with
    | running => exact absurd hstatus (ProgramReader.stopped_run _)
    | done =>
      rw [readProgram_of_done hstart hframed hstatus] at h
      cases h
    | failed fault =>
      rw [readProgram_of_failed hstart hframed hstatus] at h
      cases h
      exact ⟨_, rfl, fun _ => (ProgramReader.clamp_of_failed hstart hframed hstatus).2.1⟩

/-- **Whatever keeps a text from being translated has a place in the text.** -/
theorem isPlacedIn_of_translate {e : TranslationError}
    (h : translate settings source kind = .error e) : e.IsPlacedIn source := by
  cases hread : readProgram settings source kind with
  | error e' =>
    rw [translate, hread] at h
    cases h
    exact isPlacedIn_of_readProgram hread
  | ok m =>
    rw [translate_eq hread] at h
    have hspec := Glsl.generate_spec (wellFormed_of_readProgram hread).2
    split at hspec
    · rw [hspec.2] at h
      cases h
    · rename_i i hfind
      rw [hspec] at h
      cases h
      exact ⟨_, rfl, fun _ => place_of_mem_instructions hread (List.mem_of_find?_eq_some hfind)⟩

theorem TranslationError.IsPlacedIn.diagnostic_eq {e : TranslationError} (h : e.IsPlacedIn source) :
    e.diagnostic = e.message := by
  obtain ⟨byte, hbyte, -⟩ := h
  rw [diagnostic, hbyte]
  rfl

/-- A slot for places holds the byte that an error is about, as far as it has room for it. -/
theorem TranslationError.IsPlacedIn.exists_toSlot_eq {e : TranslationError} (h : e.IsPlacedIn source) :
    ∃ byte, e.locator = .offset byte ∧ e.locator.toSlot = min byte Locator.slotLimit ∧
      (0 < source.utf8ByteSize → e.locator.toSlot < source.utf8ByteSize) := by
  obtain ⟨byte, hbyte, hlt⟩ := h
  have hlocator : e.locator = .offset byte := by
    rw [locator, hbyte]
    rfl
  have hslot : e.locator.toSlot = min byte Locator.slotLimit := by
    rw [hlocator]
    rfl
  refine ⟨byte, hlocator, hslot, fun hpos => ?_⟩
  rw [hslot]
  exact Nat.lt_of_le_of_lt (Nat.min_le_left _ _) (hlt hpos)

/-! ## Histories of calls -/

namespace Slots

/-- What a call is about: a text, and whether it is that of a vertex program. -/
structure Call where
  source : String
  vertex : Bool
deriving DecidableEq

/-- The translation of the text with the built-in limits. -/
def Call.translation (c : Call) : Except TranslationError String :=
  translate {} c.source (.ofVertexFlag c.vertex)

/-- Why the text has no translation, if it has none. -/
def Call.failure? (c : Call) : Option TranslationError :=
  match c.translation with
  | .ok _ => none
  | .error e => some e

/-- The slots after a history of calls, the latest first. -/
def after (s : Slots) : List Call → Slots
  | [] => s
  | c :: earlier => ((s.after earlier).convert c.source c.vertex).2

theorem convert_of_ok (s : Slots) {c : Call} {text : String} (h : c.translation = .ok text) :
    s.convert c.source c.vertex = (some text, { s with location := -1 }) := by
  rw [Call.translation] at h
  rw [convert, h]

theorem convert_of_error (s : Slots) {c : Call} {e : TranslationError} (h : c.translation = .error e) :
    s.convert c.source c.vertex =
      (none, { message := some e.diagnostic, location := e.locator.toSlot }) := by
  rw [Call.translation] at h
  rw [convert, h]

theorem message_after (s : Slots) (calls : List Call) : (s.after calls).message =
    ((calls.findSome? Call.failure?).map TranslationError.diagnostic).or s.message := by
  induction calls with
  | nil => rfl
  | cons c earlier ih =>
    rw [after, List.findSome?_cons, Call.failure?]
    cases htranslation : c.translation with
    | ok text =>
      rw [convert_of_ok _ htranslation]
      exact ih
    | error e =>
      rw [convert_of_error _ htranslation]
      rfl

/-- **What a call gives and leaves behind.** After any history of calls, from any slots, a call gives
the translation of its text, if there is one, whatever the slots hold. A success leaves the message
and marks the location. A failure leaves its own message and its place in the text, as far as the slot
has room for it. So the message is always that of the latest failure, and the location says whether the
latest call failed. -/
theorem convert_outcome (s : Slots) (earlier : List Call) (c : Call) :
    let before := s.after earlier
    let (result, slots) := before.convert c.source c.vertex
    slots = s.after (c :: earlier) ∧ result = c.translation.toOption ∧
      (match c.translation with
      | .ok _ => slots.location = -1 ∧ slots.message = before.message
      | .error e => slots.message = some e.diagnostic ∧ e.diagnostic = e.message ∧
          0 ≤ slots.location ∧
          (0 < c.source.utf8ByteSize → slots.location < c.source.utf8ByteSize) ∧
          ∃ byte, e.locator = .offset byte ∧
            slots.location = ((min byte Locator.slotLimit : Nat) : Int)) ∧
      slots.message =
        (((c :: earlier).findSome? Call.failure?).map TranslationError.diagnostic).or s.message ∧
      (slots.location = -1 ↔ ∃ text, c.translation = .ok text) := by
  have hmessage := message_after s (c :: earlier)
  rw [after] at hmessage ⊢
  dsimp only
  cases htranslation : c.translation with
  | ok text =>
    rw [convert_of_ok _ htranslation] at hmessage ⊢
    exact ⟨rfl, rfl, ⟨rfl, rfl⟩, hmessage, fun _ => ⟨text, rfl⟩, fun _ => rfl⟩
  | error e =>
    rw [convert_of_error _ htranslation] at hmessage ⊢
    have hplaced : e.IsPlacedIn c.source := isPlacedIn_of_translate htranslation
    obtain ⟨byte, hbyte, hslot, hlt⟩ := hplaced.exists_toSlot_eq
    have hnonneg : 0 ≤ (e.locator.toSlot : Int) := Int.natCast_nonneg _
    refine ⟨rfl, rfl, ⟨rfl, hplaced.diagnostic_eq, hnonneg, fun hpos => Int.ofNat_lt.2 (hlt hpos), byte,
      hbyte, congrArg Int.ofNat hslot⟩, hmessage, fun h => ?_, ?_⟩
    · dsimp only at h
      omega
    · rintro ⟨_, ⟨⟩⟩

/-- A text that ends inside a statement. -/
def unfinished : Call := ⟨"!!ARBvp1.0\nTEMP a", true⟩

/-- A failure behind a success, in slots that have been used before. -/
theorem convert_outcome_unfinished :
    let slots := (after ⟨some "stale", 99⟩ [⟨"!!ARBvp1.0\nEND\n", true⟩]).convert unfinished.source
      unfinished.vertex
    slots.1 = none ∧ 0 < unfinished.source.utf8ByteSize ∧
      slots.2.location < unfinished.source.utf8ByteSize ∧
      slots.2.message = some "Syntax error: expected ',' or ';' but found end of program" := by
  have hfailure : unfinished.failure? =
      some (.malformed "expected ',' or ';' but found end of program" 16) := by decide +kernel
  have htranslation : unfinished.translation =
      .error (.malformed "expected ',' or ';' but found end of program" 16) := by
    unfold Call.failure? at hfailure
    split at hfailure
    · cases hfailure
    · rename_i h
      rw [h, Option.some.inj hfailure]
  have hpos : 0 < unfinished.source.utf8ByteSize := by decide
  obtain ⟨-, hresult, houtcome, -⟩ :=
    convert_outcome ⟨some "stale", 99⟩ [⟨"!!ARBvp1.0\nEND\n", true⟩] unfinished
  rw [htranslation] at hresult houtcome
  exact ⟨hresult, hpos, houtcome.2.2.2.1 hpos, houtcome.1⟩

end Slots

end ShaderAssembly
