import ShaderAssembly.Proofs.Lexing.Kind
import ShaderAssembly.Proofs.Printing.Reader
/-!
# Pieces with gaps between them

Blanks, comments and line ends may stand between the pieces of a statement.

* `Lexeme.IsGap`: a text that is read as blanks, comments and line ends only;
* `Piece.Spread`, `Piece.Gapped`: pieces that stand before each other, each with a gap behind it;
* **`Cursor.ofSource_reads_spread`**: a cursor that is set on such pieces in a text reads them.
-/

namespace ShaderAssembly

open Piece

/-! ## Gaps -/

namespace Lexeme

/-- Blanks, comments and line ends only, where `rest` follows them. -/
inductive IsGap (rest : List Char) : List Char → Prop
  | nil : IsGap rest []
  | cons {kind : TokenKind} {c : Char} {cs gap : List Char} :
    scan c (cs ++ (gap ++ rest)) = ⟨kind, c :: cs, gap ++ rest⟩ →
      kind = .whitespace ∨ kind = .newline → IsGap rest gap → IsGap rest (c :: cs ++ gap)

theorem IsGap.single {kind : TokenKind} {c : Char} {cs rest : List Char}
    (h : scan c (cs ++ rest) = ⟨kind, c :: cs, rest⟩) (hkind : kind = .whitespace ∨ kind = .newline) :
    IsGap rest (c :: cs) := by
  rw [← List.append_nil (c :: cs)]
  exact .cons h hkind .nil

/-- The characters that blanks, comments and line ends start with. -/
theorem gap_start {c : Char} {cs : List Char}
    (h : (scan c cs).kind = .whitespace ∨ (scan c cs).kind = .newline) :
    c ∈ ['\n', '\r', ' ', '\t', '\x0c', '#'] := by
  have hshape := shape_scan c cs
  obtain ⟨run, hrun⟩ : ∃ run, (scan c cs).text = c :: run := by
    obtain ⟨d, run, hrun⟩ := List.exists_cons_of_ne_nil (text_ne_nil c cs)
    have hsplit := text_append_rest c cs
    rw [hrun, List.cons_append] at hsplit
    exact ⟨run, hrun.trans (by rw [(List.cons.inj hsplit).1])⟩
  rw [hshape.whitespace_iff, hshape.newline_iff, hrun] at h
  obtain (⟨-, hblanks, -⟩ | ⟨_, hcomment, -⟩) | hline | hline := h
  · simp only [List.mem_cons] at hblanks ⊢
    tauto
  · simp [(List.cons.inj hcomment).1]
  · simp [(List.cons.inj hline).1]
  · simp [(List.cons.inj hline).1]

theorem IsGap.ends {gap rest : List Char} (h : IsGap rest gap) (hne : gap ≠ []) (after : List Char) :
    EndsWord (gap ++ after) ∧ EndsNumber (gap ++ after) := by
  cases h with
  | nil => exact absurd rfl hne
  | @cons kind c cs gap hscan hkind =>
    have hscanned : (scan c (cs ++ (gap ++ rest))).kind = .whitespace ∨
        (scan c (cs ++ (gap ++ rest))).kind = .newline := by rwa [hscan]
    have hc := gap_start hscanned
    rw [List.cons_append, List.cons_append, endsWord_cons, endsNumber_cons]
    simp only [List.mem_cons, List.not_mem_nil, or_false] at hc
    obtain rfl | rfl | rfl | rfl | rfl | rfl := hc <;> decide

theorem IsGap.endsWord {gap rest : List Char} (h : IsGap rest gap) (hrest : EndsWord rest) :
    EndsWord (gap ++ rest) := by
  by_cases hne : gap = []
  · rwa [hne]
  · exact (h.ends hne rest).1

theorem IsGap.endsNumber {gap rest : List Char} (h : IsGap rest gap) (hrest : EndsNumber rest) :
    EndsNumber (gap ++ rest) := by
  by_cases hne : gap = []
  · rwa [hne]
  · exact (h.ends hne rest).2

theorem IsGap.filter_scanFrom {gap rest : List Char} (h : IsGap rest gap) (offset : Nat) :
    (Token.scanFrom offset (gap ++ rest)).filter (!·.isTrivia) =
      (Token.scanFrom (offset + Text.byteLength gap) rest).filter (!·.isTrivia) := by
  induction h generalizing offset with
  | nil => rfl
  | @cons kind c cs gap hscan hkind _ ih =>
    obtain ⟨t, ht, -, -, hfirst⟩ := exists_scanFrom_cons offset c (cs ++ (gap ++ rest))
    rw [hscan] at ht hfirst
    have htrivia : t.isTrivia = true := by
      obtain rfl | rfl := hkind <;> simp [Token.isTrivia, ht]
    rw [List.append_assoc, List.cons_append, hfirst, List.filter_cons_of_neg (by simp [htrivia]), ih,
      Text.byteLength_append, Nat.add_assoc]

end Lexeme

/-! ## Pieces with gaps -/

namespace Piece

/-- The text of pieces, each with a gap behind it. -/
def spread (qs : List (Piece × List Char)) : List Char := qs.flatMap fun q => q.1.text.toList ++ q.2

@[simp] theorem spread_nil : spread [] = [] := rfl

@[simp] theorem spread_cons (p : Piece) (gap : List Char) (qs : List (Piece × List Char)) :
    spread ((p, gap) :: qs) = p.text.toList ++ (gap ++ spread qs) :=
  List.append_assoc _ _ _

/-- What stands behind each piece is a gap. -/
def Gapped (rest : List Char) : List (Piece × List Char) → Prop
  | [] => True
  | (_, gap) :: qs => Lexeme.IsGap (spread qs ++ rest) gap ∧ Gapped rest qs

/-- Each piece stands before its gap and what is behind it. -/
def Spread (rest : List Char) : List (Piece × List Char) → Prop
  | [] => True
  | (p, gap) :: qs => p.StandsBefore (gap ++ (spread qs ++ rest)) ∧ Spread rest qs

/-- **Pieces with gaps are read back.** -/
theorem exists_shown_spread {rest : List Char} {qs : List (Piece × List Char)} (h : Spread rest qs)
    (hgaps : Gapped rest qs) (offset : Nat) : ∃ ts, List.Forall₂ ShownBy (qs.map Prod.fst) ts ∧
      (Token.scanFrom offset (spread qs ++ rest)).filter (!·.isTrivia) =
        ts ++ (Token.scanFrom (offset + Text.byteLength (spread qs)) rest).filter (!·.isTrivia) := by
  induction qs generalizing offset with
  | nil => exact ⟨[], .nil, rfl⟩
  | cons q qs ih =>
    obtain ⟨p, gap⟩ := q
    obtain ⟨hstand, hrest⟩ := h
    obtain ⟨hgap, hgaps⟩ := hgaps
    obtain ⟨t, ht, -, hfirst⟩ := exists_shown_text hstand offset
    obtain ⟨ts, hts, hmore⟩ :=
      ih hrest hgaps (offset + Text.byteLength p.text.toList + Text.byteLength gap)
    refine ⟨t :: ts, .cons ht hts, ?_⟩
    rw [spread_cons, List.append_assoc, List.append_assoc, hfirst, hgap.filter_scanFrom, hmore,
      Text.byteLength_append, Text.byteLength_append, Nat.add_assoc, Nat.add_assoc, List.cons_append]

end Piece

/-- A cursor that is set on pieces with gaps in a text reads them, and then the text behind them. -/
theorem Cursor.ofSource_reads_spread {p : Piece} {gap : List Char} {qs : List (Piece × List Char)}
    (before after : String) (h : Spread after.toList ((p, gap) :: qs))
    (hgaps : Gapped after.toList ((p, gap) :: qs)) :
    let written := String.ofList (spread ((p, gap) :: qs))
    let source := before ++ (written ++ after)
    let c := ofSource source before.utf8ByteSize
    p.ShownBy c.current ∧ ∃ c', c.Reads (qs.map Prod.fst) c' ∧
      c'.rest = Token.significant source (before.utf8ByteSize + written.utf8ByteSize) := by
  intro written source c
  obtain ⟨ts, hts, hfirst⟩ := exists_shown_spread h hgaps before.utf8ByteSize
  have hsize : Text.byteLength (spread ((p, gap) :: qs)) = written.utf8ByteSize := by
    rw [← Text.byteLength_toList, String.toList_ofList]
  have hbehind : Token.significant source (before.utf8ByteSize + written.utf8ByteSize) =
      (Token.scanFrom (before.utf8ByteSize + written.utf8ByteSize) after.toList).filter
        (!·.isTrivia) := by
    have hsource : source = before ++ written ++ after := String.append_assoc.symm
    rw [hsource, ← String.utf8ByteSize_append, Token.significant_append]
  have htokens : Token.significant source before.utf8ByteSize =
      ts ++ Token.significant source (before.utf8ByteSize + written.utf8ByteSize) := by
    rw [Token.significant_append, String.toList_append, String.toList_ofList, hfirst, hbehind, hsize]
  cases hts with
  | @cons _ t _ ts ht hts =>
    have hc : c = ⟨source.toList, t, ts ++
        Token.significant source (before.utf8ByteSize + written.utf8ByteSize)⟩ := by
      change Cursor.advance ⟨_, _, Token.significant source before.utf8ByteSize⟩ = _
      rw [htokens]
      rfl
    exact ⟨by rw [hc]; exact ht, exists_reads hts (by rw [hc])⟩

end ShaderAssembly
