import ShaderAssembly.Proofs.Generation.Layout
/-!
# Shaders of a limited size

A writer with a limit does what one without a limit does as long as the text fits. Once a piece does
not fit, the text of the other writer is beyond the limit for good.

* `Written.Cut`: what becomes of a step if the text has to fit into some bytes;
* `Write.Agrees`: steps that a limit affects in no other way, closed under putting them together;
* **`Write.agrees_items`**: a whole shader is written by such steps;
* **`generateWithin_eq`**: a shader of a limited size is the shader, or its first fault, if what is
  written up to there fits.
-/

namespace ShaderAssembly.Glsl

variable {α β : Type}

/-! ## Writers with and without a limit -/

/-- The writer with a limit. -/
def Writer.within (w : Writer) (bytes : Nat) : Writer := { w with limit := some bytes }

/-- The error of a text that does not fit. -/
def tooLong (bytes : Nat) : TranslationError := .resource s!"output exceeds {bytes} bytes"

/-- What a step gives, or why it fails, and the writer behind it. -/
abbrev Written := EStateM.Result TranslationError Writer

namespace Written

/-- The writer behind a step, also behind one that fails. -/
def writer : Written α → Writer
  | .ok _ w => w
  | .error _ w => w

/-- The outcome with a limit for the writer. -/
def within (bytes : Nat) : Written α → Written α
  | .ok a w => .ok a (w.within bytes)
  | .error e w => .error e (w.within bytes)

/-- The outcome of a step without a limit, and the outcome of the same step if the text has to fit
into some bytes. -/
inductive Cut (bytes : Nat) (r : Written α) : Written α → Prop
  | fits (h : (writer r).length ≤ bytes) : Cut bytes r (within bytes r)
  | exceeds (h : bytes < (writer r).length) (w : Writer) : Cut bytes r (.error (tooLong bytes) w)

end Written

/-! ## Steps that a limit cuts short -/

namespace Write

open Written

/-- Steps that only add to the text and that a limit affects in no other way than by cutting them
short. -/
structure Agrees (step : Write α) : Prop where
  unlimited : ∀ w : Writer, w.limit = none → (writer (step w)).limit = none
  grows : ∀ w : Writer, w.limit = none → w.length ≤ (writer (step w)).length
  cut : ∀ (w : Writer) (bytes : Nat), w.limit = none → w.length ≤ bytes →
    Cut bytes (step w) (step (w.within bytes))

theorem agrees_of_still {step : Write α}
    (h : ∀ w bytes, step (Writer.within w bytes) = within bytes (step w))
    (hlimit : ∀ w, (writer (step w)).limit = w.limit) (htext : ∀ w, (writer (step w)).text = w.text) :
    Agrees step where
  unlimited w hw := (hlimit w).trans hw
  grows w _ := Nat.le_of_eq (congrArg String.utf8ByteSize (htext w).symm)
  cut w bytes _ hfits := by
    rw [h]
    exact .fits (by rwa [Writer.length, htext])

theorem agrees_pure (a : α) : Agrees (pure a) :=
  agrees_of_still (fun _ _ => rfl) (fun _ => rfl) fun _ => rfl

theorem agrees_throw (e : TranslationError) : Agrees (throw e : Write α) :=
  agrees_of_still (fun _ _ => rfl) (fun _ => rfl) fun _ => rfl

theorem agrees_indent : Agrees indent :=
  agrees_of_still (fun _ _ => rfl) (fun _ => rfl) fun _ => rfl

theorem agrees_dedent : Agrees dedent :=
  agrees_of_still (fun _ _ => rfl) (fun _ => rfl) fun _ => rfl

theorem length_add (w : Writer) (piece : String) :
    (w.add piece).length = w.length + piece.utf8ByteSize := String.utf8ByteSize_append

theorem push_within (w : Writer) (bytes : Nat) (piece : String) :
    push piece (w.within bytes) =
      if bytes < w.length + piece.utf8ByteSize then .error (tooLong bytes) (w.within bytes)
      else .ok () ((w.add piece).within bytes) := by
  have hpush : push piece (w.within bytes) =
      (if bytes < w.length + piece.utf8ByteSize then
        (throw (tooLong bytes) >>= fun _ => set ((w.add piece).within bytes) : Write Unit)
      else set ((w.add piece).within bytes)) (w.within bytes) := rfl
  rw [hpush]
  by_cases hlimit : bytes < w.length + piece.utf8ByteSize
  · rw [if_pos hlimit, if_pos hlimit]
    rfl
  · rw [if_neg hlimit, if_neg hlimit]
    rfl

theorem agrees_push (piece : String) : Agrees (push piece) where
  unlimited w hw := by
    rw [push_run hw]
    exact hw
  grows w hw := by
    rw [push_run hw]
    exact (length_add w piece).symm ▸ Nat.le_add_right _ _
  cut w bytes hw _ := by
    rw [push_run hw, push_within, ← length_add]
    split
    · exact .exceeds ‹_› _
    · exact .fits (Nat.le_of_not_lt ‹_›)

theorem bind_fail {step : Write α} {f : α → Write β} {w w' : Writer} {e : TranslationError}
    (h : step w = .error e w') : (step >>= f) w = .error e w' := by
  simp only [bind, EStateM.bind, h]

/-- Two steps, one behind the other. Once the first one has gone beyond the limit, the second one does
not come back. -/
theorem Agrees.bind {step : Write α} {f : α → Write β} (h : Agrees step) (hf : ∀ a, Agrees (f a)) :
    Agrees (step >>= f) where
  unlimited w hw := by
    have hstep := h.unlimited w hw
    cases e : step w with
    | ok a w' =>
      rw [e] at hstep
      rw [bind_run e]
      exact (hf a).unlimited w' hstep
    | error cause w' =>
      rw [e] at hstep
      rw [bind_fail e]
      exact hstep
  grows w hw := by
    have hstep := h.unlimited w hw
    have hgrows := h.grows w hw
    cases e : step w with
    | ok a w' =>
      rw [e] at hstep hgrows
      rw [bind_run e]
      exact Nat.le_trans hgrows ((hf a).grows w' hstep)
    | error cause w' =>
      rw [e] at hgrows
      rw [bind_fail e]
      exact hgrows
  cut w bytes hw hfits := by
    have hstep := h.unlimited w hw
    have hcut := h.cut w bytes hw hfits
    generalize hlimited : step (w.within bytes) = limited at hcut
    cases e : step w with
    | ok a w' =>
      rw [e] at hstep hcut
      rw [bind_run e]
      cases hcut with
      | fits hfits' =>
        rw [bind_run hlimited]
        exact (hf a).cut w' bytes hstep hfits'
      | exceeds hexceeds w'' =>
        rw [bind_fail hlimited]
        exact .exceeds (Nat.lt_of_lt_of_le hexceeds ((hf a).grows w' hstep)) w''
    | error cause w' =>
      rw [e] at hcut
      rw [bind_fail e]
      cases hcut with
      | fits hfits' =>
        rw [bind_fail hlimited]
        exact .fits hfits'
      | exceeds hexceeds w'' =>
        rw [bind_fail hlimited]
        exact .exceeds (show bytes < w'.length from hexceeds) w''

/-! ## Lines and whole shaders -/

theorem agrees_margin (n : Nat) : Agrees (margin n) := by
  induction n with
  | zero => exact agrees_pure ()
  | succ n ih => exact (agrees_push _).bind fun _ => ih

theorem agrees_line (text : String) : Agrees (line text) := by
  have hdepth (n : Nat) : Agrees (do margin n; push text; push "\n") :=
    (agrees_margin n).bind fun _ => (agrees_push text).bind fun _ => agrees_push "\n"
  exact ⟨fun w hw => (hdepth w.depth).unlimited w hw, fun w hw => (hdepth w.depth).grows w hw,
    fun w bytes hw hfits => (hdepth w.depth).cut w bytes hw hfits⟩

theorem agrees_put (l : Line) : Agrees (put l) := by
  cases l with
  | openMain => exact (agrees_line _).bind fun _ => agrees_indent
  | closeMain => exact agrees_dedent.bind fun _ => agrees_line _
  | version | rectangleExtension | addressType | bank | sampler | declare | declareArray
  | assign | discardIf => exact agrees_line _

/-- **A limit affects a shader in no other way than by cutting it short.** -/
theorem agrees_items (items : List Item) : Agrees (Write.items items) := by
  induction items with
  | nil => exact agrees_pure ()
  | cons item rest ih =>
    cases item with
    | ok line => exact (agrees_put line).bind fun _ => ih
    | error fault => exact agrees_throw _

end Write

/-! ## What is written before a fault -/

/-- The lines before the first fault. -/
def linesBefore : List Item → List Line
  | .ok line :: rest => line :: linesBefore rest
  | _ => []

theorem items_run (items : List Item) {w : Writer} (h : w.limit = none) :
    (Written.writer (Write.items items w)).text = w.text ++ layout w.depth (linesBefore items) := by
  induction items generalizing w with
  | nil => simp [Write.items, linesBefore, layout, Written.writer, pure, EStateM.pure]
  | cons item rest ih =>
    cases item with
    | error fault =>
      have hfail : Write.items (.error fault :: rest) w = .error fault.toError w := rfl
      simp [hfail, linesBefore, layout, Written.writer]
    | ok line =>
      rw [Write.items, Write.bind_run (Write.put_run h line), ih (by exact h), linesBefore, layout,
        ← String.append_assoc]
      rfl

/-- A text of a limited size is the text, or the reason why there is none, if all that is written
fits. -/
theorem textOf_within (items : List Item) (bytes : Nat) :
    textOf (Writer.within {} bytes) items =
      if (Written.writer (Write.items items {})).length ≤ bytes then textOf {} items
      else .error (tooLong bytes) := by
  have hcut := (Write.agrees_items items).cut {} bytes rfl (Nat.zero_le _)
  rw [textOf, textOf]
  generalize Write.items items (Writer.within {} bytes) = limited at hcut
  generalize Write.items items {} = r at hcut
  cases hcut with
  | fits h =>
    rw [if_pos h]
    cases r <;> rfl
  | exceeds h w => rw [if_neg (Nat.not_le.2 h)]

theorem textOf_within_spec (items : List Item) (bytes : Nat) :
    match textOf {} items with
    | .ok text => textOf (Writer.within {} bytes) items =
        if text.utf8ByteSize ≤ bytes then .ok text else .error (tooLong bytes)
    | .error e => ∃ (fault : Fault) (w : Writer), e = fault.toError ∧
        Write.items items {} = .error e w ∧ w.text = layout 0 (linesBefore items) ∧
        textOf (Writer.within {} bytes) items =
          if w.text.utf8ByteSize ≤ bytes then .error e else .error (tooLong bytes) := by
  have hwritten := items_run items (w := {}) rfl
  rw [String.empty_append] at hwritten
  rw [textOf_within]
  cases e : Write.items items {} with
  | ok u w =>
    rw [textOf, e]
    rfl
  | error cause w =>
    have htext : textOf {} items = .error cause := by rw [textOf, e]
    have hfault := textOf_eq items (w := {}) rfl
    rw [e] at hwritten
    rw [htext] at hfault ⊢
    cases hlines : items.mapM id with
    | ok lines =>
      rw [hlines] at hfault
      cases hfault
    | error fault =>
      rw [hlines] at hfault
      exact ⟨fault, w, Except.error.inj hfault, rfl, hwritten, rfl⟩

/-- **A shader of a limited size is the shader if it fits.** If there is no shader because of a fault,
that fault is found if the lines before it fit. Otherwise the text is too long. -/
theorem generateWithin_eq (m : Model) (limits : Limits) (bytes : Nat) :
    match generate m limits with
    | .ok text => generateWithin m limits bytes =
        if text.utf8ByteSize ≤ bytes then .ok text else .error (tooLong bytes)
    | .error e => ∃ (fault : Fault) (w : Writer), e = fault.toError ∧
        Write.items (shader m limits) {} = .error e w ∧
        w.text = layout 0 (linesBefore (shader m limits)) ∧
        generateWithin m limits bytes =
          if w.text.utf8ByteSize ≤ bytes then .error e else .error (tooLong bytes) := by
  rw [generate, generateWithin]
  generalize shader m limits = items
  exact textOf_within_spec items bytes

end ShaderAssembly.Glsl
