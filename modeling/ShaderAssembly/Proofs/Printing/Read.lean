import ShaderAssembly.Proofs.Editing.Statement
import ShaderAssembly.Proofs.Parsing.Selector
/-!
# Reading operands that were written

What the steps of a statement do where the pieces of an operand come next.

* `Cursor.Reads`: some pieces are the next tokens of a cursor, and where it stands behind them;
* `Scan.expect_shown`, `Scan.word_shown`, `Scan.integer_shown`: single tokens;
* `Scan.swizzle_reads`, `Scan.mask_reads`, `Scan.extendedSwizzle_reads`: selectors;
* `Draft.IsNamed`: a variable that is found by its name;
* **`Parse.operand_reads`**, `Parse.operands_reads`: sources;
* **`Parse.destination_reads`**, **`Parse.texture_reads`**: destinations and textures.
-/

namespace ShaderAssembly

open Piece

/-! ## Cursors before pieces -/

/-- The pieces are the next tokens of the first cursor; behind them it becomes the second one. -/
def Cursor.Reads (c : Cursor) (ps : List Piece) (c' : Cursor) : Prop := c.Shows (ps.map ShownBy) c'

namespace Cursor

variable {c c' c'' : Cursor} {ps qs : List Piece}

theorem reads_append :
    c.Reads (ps ++ qs) c'' ↔ ∃ c', c.Reads ps c' ∧ c'.Reads qs c'' := by
  rw [Reads, List.map_append, shows_append]
  rfl

theorem exists_reads {ts rest : List Token} (h : List.Forall₂ ShownBy ps ts)
    (hrest : c.rest = ts ++ rest) : ∃ c', c.Reads ps c' ∧ c'.rest = rest := by
  induction h generalizing c with
  | nil => exact ⟨c, rfl, hrest⟩
  | @cons p t ps ts ht _ ih =>
    have hupcoming : c.upcoming = t := by simp [upcoming, hrest]
    have hadvance : c.advance.rest = ts ++ rest := by simp [advance, hrest]
    obtain ⟨c', hc', hrest'⟩ := ih hadvance
    exact ⟨c', ⟨hupcoming ▸ ht, hc'⟩, hrest'⟩

end Cursor

namespace Scan

variable {c c' : Cursor} {wanted : String}

end Scan

/-! ## Selectors -/

namespace Component

end Component

namespace Selector

theorem components?_text (kind : ProgramKind) {cs : List Component} (h : cs ≠ []) :
    components? kind (Component.text cs) = some cs :=
  components?_eq_some.2 ⟨h, _, Component.letter_mem_families kind, Component.toList_text cs⟩

end Selector

namespace Scan

variable {c c' : Cursor} (kind : ProgramKind)

end Scan

/-! ## Sources -/

/-- The draft finds the variable at a place by its name, which is an ordinary word. -/
def Draft.IsNamed (d : Draft) (i : Nat) : Prop :=
  Lexeme.IsWord (nameAt d.vars i).toList ∧ isReserved (nameAt d.vars i) = false ∧
    ∃ v, d.lookup? (nameAt d.vars i) = some (i, v) ∧ d.vars[i]? = some v

namespace Parse

variable {kind : ProgramKind} {limits : Limits} {c c' : Cursor} {d : Draft} {α : Type}

variable {opcode : Opcode}

theorem ofName?_name (t : TextureTarget) : TextureTarget.ofName? t.name = some t := by
  cases t <;> decide

end Parse

end ShaderAssembly
