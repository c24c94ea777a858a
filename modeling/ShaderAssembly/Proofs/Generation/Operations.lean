import ShaderAssembly.Proofs.Generation.Limited
/-!
# Runs of a writer

A writer goes on behind a failure: what did not fit is left out, and a shorter piece may still fit
later.

* `Operation`, `Writer.after`: what can be asked of a writer, and the writer behind a run of that;
* `Writer.HasRoom`, `Writer.LongestRun`: the longest run of pieces from the start that fits;
* `Operation.Adds`: what an operation does to a writer, whether it succeeds or fails;
* `Write.adds_pieces`: pieces are added one by one up to the first that does not fit;
* `Operation.adds_step`: an operation adds its pieces so;
* **`Writer.after_operations`**: what a writer holds behind any run of operations, and what the next
  one does to it.
-/

namespace ShaderAssembly.Glsl

/-! ## Operations -/

/-- What can be asked of a writer. -/
inductive Operation where
  | push (piece : String)
  | line (text : String)
  | indent
  | dedent
deriving DecidableEq

namespace Operation

/-- The step of a writer that an operation asks for. -/
def step : Operation → Write Unit
  | push piece => Write.push piece
  | line text => Write.line text
  | indent => Write.indent
  | dedent => Write.dedent

/-- The pieces of text that an operation adds at a depth. -/
def pieces (depth : Nat) : Operation → List String
  | push piece => [piece]
  | line text => List.replicate depth "    " ++ [text, "\n"]
  | indent | dedent => []

/-- The depth behind an operation. -/
def depthBehind (depth : Nat) : Operation → Nat
  | indent => depth + 1
  | dedent => depth - 1
  | push _ | line _ => depth

/-- The depth behind a run of operations. -/
def depthAfter : Nat → List Operation → Nat
  | depth, [] => depth
  | depth, op :: ops => depthAfter (op.depthBehind depth) ops

end Operation

/-- The writer behind a run of operations, each of which may fail. -/
def Writer.after : Writer → List Operation → Writer
  | w, [] => w
  | w, op :: ops => after (Written.writer (op.step w)) ops

/-! ## Room for pieces -/

namespace Writer

/-- So many bytes more fit. -/
def HasRoom (w : Writer) (bytes : Nat) : Prop := ∀ limit ∈ w.limit, w.length + bytes ≤ limit

/-- The longest run of pieces from the start that fits. -/
structure LongestRun (w : Writer) (pieces front : List String) : Prop where
  starts : front <+: pieces
  fits : w.HasRoom (String.join front).utf8ByteSize
  longest : ∀ run, run <+: pieces → w.HasRoom (String.join run).utf8ByteSize → run <+: front

variable {w : Writer} {piece : String} {pieces front : List String} {m n : Nat}

theorem HasRoom.mono (h : w.HasRoom n) (hle : m ≤ n) : w.HasRoom m := fun limit hlimit =>
  Nat.le_trans (Nat.add_le_add_left hle _) (h limit hlimit)

theorem hasRoom_add : (w.add piece).HasRoom n ↔ w.HasRoom (piece.utf8ByteSize + n) := by
  unfold HasRoom
  rw [Write.length_add, Nat.add_assoc]
  rfl

theorem size_join_cons : (String.join (piece :: pieces)).utf8ByteSize =
    piece.utf8ByteSize + (String.join pieces).utf8ByteSize := by
  rw [String.join_cons, String.utf8ByteSize_append]

theorem add_empty (w : Writer) : w.add "" = w := by rw [add, String.append_empty]

theorem add_join_cons (w : Writer) (piece : String) (pieces : List String) :
    w.add (String.join (piece :: pieces)) = (w.add piece).add (String.join pieces) := by
  rw [String.join_cons, add, add, add, String.append_assoc]

theorem longestRun_nil (hw : w.HasRoom 0) (h : ¬ w.HasRoom piece.utf8ByteSize) :
    w.LongestRun (piece :: pieces) [] where
  starts := List.nil_prefix
  fits := hw
  longest run hrun hfits := by
    cases run with
    | nil => exact List.nil_prefix
    | cons q run =>
      obtain ⟨rfl, -⟩ := List.cons_prefix_cons.1 hrun
      rw [size_join_cons] at hfits
      exact absurd (hfits.mono (Nat.le_add_right _ _)) h

theorem LongestRun.cons (h : (w.add piece).LongestRun pieces front) :
    w.LongestRun (piece :: pieces) (piece :: front) where
  starts := List.cons_prefix_cons.2 ⟨rfl, h.starts⟩
  fits := by
    rw [size_join_cons]
    exact hasRoom_add.1 h.fits
  longest run hrun hfits := by
    cases run with
    | nil => exact List.nil_prefix
    | cons q run =>
      obtain ⟨rfl, hrest⟩ := List.cons_prefix_cons.1 hrun
      rw [size_join_cons] at hfits
      exact List.cons_prefix_cons.2 ⟨rfl, h.longest run hrest (hasRoom_add.2 hfits)⟩

end Writer

/-! ## What an operation does -/

/-- What an operation does to a writer: it adds its pieces and goes on at its depth, or it adds the
longest run of them that fits, and fails. -/
inductive Operation.Adds (w : Writer) (pieces : List String) (depth : Nat) : Written Unit → Prop
  | all (h : w.HasRoom (String.join pieces).utf8ByteSize) :
    Adds w pieces depth (.ok () { w.add (String.join pieces) with depth })
  | front {front : List String} {limit : Nat} (h : w.LongestRun pieces front) (hne : front ≠ pieces)
    (hlimit : w.limit = some limit) :
    Adds w pieces depth (.error (tooLong limit) (w.add (String.join front)))

theorem Operation.adds_nil {w : Writer} (hw : w.HasRoom 0) (depth : Nat) :
    Adds w [] depth (.ok () { w with depth }) := by
  have h : Adds w [] depth (.ok () { w.add "" with depth }) := .all hw
  rwa [w.add_empty] at h

namespace Write

variable {w : Writer}

theorem push_eq (w : Writer) (piece : String) :
    push piece w = match w.limit with
      | some bytes => if bytes < w.length + piece.utf8ByteSize then .error (tooLong bytes) w
        else .ok () (w.add piece)
      | none => .ok () (w.add piece) := by
  obtain ⟨text, depth, limit⟩ := w
  cases limit with
  | none => exact push_run rfl piece
  | some bytes => exact push_within ⟨text, depth, none⟩ bytes piece

theorem push_of_hasRoom {piece : String} (h : w.HasRoom piece.utf8ByteSize) :
    push piece w = .ok () (w.add piece) := by
  rw [push_eq]
  cases hlimit : w.limit with
  | none => rfl
  | some bytes => exact if_neg (Nat.not_lt.2 (h bytes hlimit))

theorem push_of_not_hasRoom {piece : String} (h : ¬ w.HasRoom piece.utf8ByteSize) :
    ∃ bytes, w.limit = some bytes ∧ push piece w = .error (tooLong bytes) w := by
  rw [push_eq]
  cases hlimit : w.limit with
  | none => exact absurd (fun bytes hbytes => nomatch hlimit.symm.trans hbytes) h
  | some bytes =>
    refine ⟨bytes, rfl, if_pos (Nat.not_le.1 fun hle => h fun other hother => ?_)⟩
    obtain rfl := Option.some.inj (hlimit.symm.trans hother)
    exact hle

theorem adds_pieces (hw : w.HasRoom 0) (pieces : List String) :
    Operation.Adds w pieces w.depth ((forM pieces push : Write Unit) w) := by
  induction pieces generalizing w with
  | nil => exact Operation.adds_nil hw w.depth
  | cons piece pieces ih =>
    rw [List.forM_cons]
    by_cases hpiece : w.HasRoom piece.utf8ByteSize
    · rw [bind_run (push_of_hasRoom hpiece)]
      have hrest := ih (Writer.hasRoom_add.2 hpiece)
      generalize (forM pieces push : Write Unit) (w.add piece) = r at hrest
      cases hrest with
      | all h =>
        rw [Writer.hasRoom_add, ← Writer.size_join_cons] at h
        rw [← Writer.add_join_cons]
        exact .all h
      | front h hne hlimit =>
        rw [← Writer.add_join_cons]
        exact .front h.cons (fun heq => hne (List.cons.inj heq).2) hlimit
    · obtain ⟨limit, hlimit, hpush⟩ := push_of_not_hasRoom hpiece
      rw [bind_fail hpush]
      have h : Operation.Adds w (piece :: pieces) w.depth (.error (tooLong limit) (w.add "")) :=
        .front (Writer.longestRun_nil hw hpiece) (List.cons_ne_nil _ _).symm hlimit
      rwa [w.add_empty] at h

theorem margin_eq (n : Nat) : margin n = forM (List.replicate n "    ") push := by
  induction n with
  | zero => rfl
  | succ n ih => rw [margin, ih, List.replicate_succ, List.forM_cons]

theorem push_eq_forM (piece : String) : push piece = forM [piece] push := by
  rw [List.forM_cons, List.forM_nil]
  exact (bind_pure (push piece)).symm

theorem line_eq (text : String) :
    line text w = (forM ((Operation.line text).pieces w.depth) push : Write Unit) w := by
  have h₀ : (get : Write Writer) w = .ok w w := rfl
  rw [line, bind_run h₀, margin_eq, Operation.pieces, List.forM_append, List.forM_cons, ← push_eq_forM]

end Write

namespace Operation

variable {w : Writer} {pieces : List String} {depth : Nat} {r : Written Unit}

theorem adds_step (hw : w.HasRoom 0) (op : Operation) :
    Adds w (op.pieces w.depth) (op.depthBehind w.depth) (op.step w) := by
  cases op with
  | push piece =>
    rw [step, Write.push_eq_forM]
    exact Write.adds_pieces hw [piece]
  | line text =>
    rw [step, Write.line_eq]
    exact Write.adds_pieces hw _
  | indent => exact adds_nil hw (w.depth + 1)
  | dedent => exact adds_nil hw (w.depth - 1)

theorem Adds.limit_eq (h : Adds w pieces depth r) : (Written.writer r).limit = w.limit := by
  cases h <;> rfl

theorem Adds.hasRoom (h : Adds w pieces depth r) : (Written.writer r).HasRoom 0 := by
  have hadd {front : List String} (h : w.HasRoom (String.join front).utf8ByteSize) :
      (w.add (String.join front)).HasRoom 0 := Writer.hasRoom_add.2 h
  cases h with
  | all h => exact hadd h
  | front h => exact hadd h.fits

/-- What has been written stays. -/
theorem Adds.exists_text (h : Adds w pieces depth r) :
    ∃ more, (Written.writer r).text = w.text ++ more := by
  cases h <;> exact ⟨_, rfl⟩

/-- The depth moves also behind a failure as the operation says: the operations that change it add
no pieces, and do not fail. -/
theorem depth_step (hw : w.HasRoom 0) (op : Operation) :
    (Written.writer (op.step w)).depth = op.depthBehind w.depth := by
  have h := adds_step hw op
  generalize op.step w = r at h
  cases h with
  | all => rfl
  | front h hne =>
    cases op with
    | push | line => rfl
    | indent | dedent => exact absurd (List.prefix_nil.1 h.starts) hne

end Operation

/-! ## Runs of operations -/

namespace Writer

open Operation

theorem after_append (w : Writer) (earlier later : List Operation) :
    w.after (earlier ++ later) = (w.after earlier).after later := by
  induction earlier generalizing w with
  | nil => rfl
  | cons op earlier ih => exact ih _

/-- What any run of operations keeps, by what each of them keeps. -/
theorem after_keeps {w : Writer} (hw : w.HasRoom 0) (ops : List Operation) :
    (w.after ops).limit = w.limit ∧ (w.after ops).HasRoom 0 ∧
      (w.after ops).depth = depthAfter w.depth ops ∧ ∃ more, (w.after ops).text = w.text ++ more := by
  induction ops generalizing w with
  | nil => exact ⟨rfl, hw, rfl, "", String.append_empty.symm⟩
  | cons op ops ih =>
    have hop := adds_step hw op
    obtain ⟨hlimit, hroom, hdepth, more, htext⟩ := ih hop.hasRoom
    obtain ⟨first, hfirst⟩ := hop.exists_text
    refine ⟨hlimit.trans hop.limit_eq, hroom, ?_, first ++ more, ?_⟩
    · rw [after, hdepth, depth_step hw]
      rfl
    · rw [after, htext, hfirst, String.append_assoc]

/-- **What a writer holds behind any run of operations.** Its text is within the limit, also where
operations have failed, and stands at the start of every later text. The depth is that of the
operations that move in and out, whatever has failed. A piece is refused if and only if it goes beyond
the limit, and then the writer stays as it is. Any operation adds all its pieces, or fails and adds the
longest run of them that fits. -/
theorem after_operations (limit : Option Nat) (earlier : List Operation) :
    let w := ({ limit } : Writer).after earlier
    (w.limit = limit ∧ ∀ bytes ∈ limit, w.length ≤ bytes) ∧
    w.depth = depthAfter 0 earlier ∧
    (∀ later, ∃ more, (({ limit } : Writer).after (earlier ++ later)).text = w.text ++ more) ∧
    (∀ piece, Write.push piece w = match limit with
      | some bytes => if bytes < w.length + piece.utf8ByteSize then .error (tooLong bytes) w
        else .ok () (w.add piece)
      | none => .ok () (w.add piece)) ∧
    ∀ op : Operation, Adds w (op.pieces w.depth) (op.depthBehind w.depth) (op.step w) := by
  intro w
  have hempty : ({ limit } : Writer).HasRoom 0 := fun _ _ => Nat.zero_le _
  obtain ⟨hlimit, hroom, hdepth, -⟩ := after_keeps hempty earlier
  refine ⟨⟨hlimit, fun bytes hbytes => hroom bytes (hlimit ▸ hbytes)⟩, hdepth, fun later => ?_,
    fun piece => ?_, adds_step hroom⟩
  · rw [after_append]
    exact (after_keeps hroom later).2.2.2
  · rw [Write.push_eq, hlimit]

/-- Of a line that does not fit, the blanks stay, and a shorter piece fits behind them. -/
theorem after_operations_narrow :
    let w := ({ limit := some 5 } : Writer).after
      [.indent, .line "ab", .push "x", .dedent, .dedent, .indent]
    w.text = "    x" ∧ 5 ∈ w.limit ∧ w.length ≤ 5 ∧ w.depth = 1 ∧
      Write.push "y" w = .error (tooLong 5) w := by
  intro w
  obtain ⟨⟨hlimit, hfits⟩, hdepth, -, hpush, -⟩ := after_operations (some 5)
    [.indent, .line "ab", .push "x", .dedent, .dedent, .indent]
  have htext : w.text = "    x" := by decide +kernel
  have hlength : w.length = 5 := by rw [length, htext]; decide
  refine ⟨htext, hlimit, hfits 5 rfl, hdepth, (hpush "y").trans ?_⟩
  exact if_pos (by rw [hlength]; decide)

end Writer

end ShaderAssembly.Glsl
