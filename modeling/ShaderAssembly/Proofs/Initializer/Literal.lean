import Mathlib.Data.Fin.VecNotation
import ShaderAssembly.Proofs.Initializer.Declaration
import ShaderAssembly.Proofs.Printing.Gap
/-!
# Literals in texts

* `Literal.piece`: a literal as a token to be written;
* `Literal.number?_shown`, `Literal.signed_reads`: the number that such a token denotes, also behind a
  sign;
* `Literal.parameter`: a parameter with a literal as its value, with gaps between the tokens;
* **`Literal.reading`**: a literal is read as one token, wherever it stands, and a parameter with a
  finite one is accepted.
-/

namespace ShaderAssembly

open Piece

variable {kind : ProgramKind} {limits : Limits} {ℓ : Literal}

/-! ## Literals as tokens -/

namespace Literal

/-- A literal as a token to be written. -/
def piece (ℓ : Literal) : Piece := ⟨ℓ.kind, String.ofList ℓ.text, false⟩

theorem stands_piece (h : ¬ ℓ.Severed) {rest : List Char} (hrest : EndsNumber rest) :
    ℓ.piece.StandsBefore rest := by
  refine ⟨Lexeme.literalKind_ne ℓ (by simp) (by simp), Lexeme.literalKind_ne ℓ (by simp) (by simp), ?_⟩
  rw [piece]
  dsimp only
  rw [String.toList_ofList]
  exact Lexeme.scan_literal h hrest

theorem number?_shown {t : Token} (h : ℓ.piece.ShownBy t) :
    ∃ v, t.number? = some v ∧ Single.Rounds false ℓ.value v := by
  have hkind : t.kind = ℓ.kind := h.1
  unfold Token.number?
  by_cases hwhole : ℓ.IsWhole ∧ Decimal.ofDigits ℓ.whole < UInt32.size
  case pos =>
    rw [hkind, Literal.kind, if_pos hwhole]
    refine ⟨_, rfl, ?_⟩
    have hvalue : ℓ.value = (Decimal.ofDigits ℓ.whole : ℚ) / (1 : ℕ) := by
      rw [value, hwhole.1.1, power, hwhole.1.2]
      simp [Decimal.ofDigits]
    rw [hvalue]
    exact Single.ofQuotient_rounds false _ Nat.one_pos
  case neg =>
    rw [hkind, Literal.kind, if_neg hwhole]
    exact ⟨_, rfl, ℓ.rounds_single⟩

theorem signed_reads {c d : Cursor} {sign : Option Char} (hsign : ∀ s ∈ sign, s = '+' ∨ s = '-')
    (hfinite : ℓ.value < Single.overflow)
    (h : c.Reads (sign.toList.map mark ++ [ℓ.piece]) d) :
    ∃ v, c.Signed v d ∧ Single.Rounds (sign = some '-') ℓ.value v := by
  have hnumber {t : Token} (ht : ℓ.piece.ShownBy t) :
      ∃ v, t.IsNumber v ∧ Single.Rounds false ℓ.value v := by
    obtain ⟨v, hv, hrounds⟩ := number?_shown ht
    exact ⟨v, ⟨hv, hrounds.isFinite_iff.2 hfinite⟩, hrounds⟩
  cases sign with
  | none =>
    obtain ⟨hliteral, rfl⟩ := h
    obtain ⟨v, hv, hrounds⟩ := hnumber hliteral
    exact ⟨v, .bare ⟨hv, rfl⟩, by simpa using hrounds⟩
  | some s =>
    obtain ⟨hmark, hliteral, rfl⟩ := h
    obtain ⟨v, hv, hrounds⟩ := hnumber hliteral
    obtain rfl | rfl := hsign s rfl
    · exact ⟨v, .plus ⟨hmark.1, hv, rfl⟩, by simpa using hrounds⟩
    · exact ⟨v.negate, .minus ⟨hmark.1, hv, rfl⟩, by simpa using hrounds.negate⟩

/-! ## Parameters with a literal -/

/-- A parameter with a literal as its value, behind the word that opens it, and what stands behind
each token. -/
def declared (ℓ : Literal) (name : String) (sign : Option Char) (gaps : Fin 4 → List Char) :
    List (Piece × List Char) :=
  (.word name, gaps 0) :: (mark '=', gaps 1) ::
    (sign.toList.map (fun s => (mark s, gaps 2)) ++ [(ℓ.piece, gaps 3), (mark ';', [])])

/-- The whole parameter. -/
def parameter (ℓ : Literal) (name : String) (sign : Option Char) (gap : List Char)
    (gaps : Fin 4 → List Char) : List (Piece × List Char) :=
  (.word "PARAM", gap) :: ℓ.declared name sign gaps

theorem map_fst_declared (name : String) (sign : Option Char) (gaps : Fin 4 → List Char) :
    (ℓ.declared name sign gaps).map Prod.fst =
      [.word name, mark '='] ++ ((sign.toList.map mark ++ [ℓ.piece]) ++ [mark ';']) := by
  simp [declared, Function.comp_def]

theorem spread_parameter (h : ¬ ℓ.Severed) {name : String} (hname : Lexeme.IsWord name.toList)
    {sign : Option Char} (hsign : ∀ s ∈ sign, s = '+' ∨ s = '-') {gap : List Char} (hne : gap ≠ [])
    {gaps : Fin 4 → List Char} {rest : List Char}
    (hgaps : Gapped rest (ℓ.parameter name sign gap gaps)) :
    Spread rest (ℓ.parameter name sign gap gaps) := by
  have hequals (rest : List Char) : (mark '=').StandsBefore rest :=
    ⟨nofun, nofun, '=', [], rfl, rfl⟩
  have hend (rest : List Char) : EndsWord ('=' :: rest) := (endsWord_cons '=' rest).2 (by decide)
  have hvalue {qs : List (Piece × List Char)} (hqs : qs = [(ℓ.piece, gaps 3), (mark ';', [])])
      (hgaps : Gapped rest qs) : Spread rest qs := by
    subst hqs
    have hstop : EndsNumber (spread [(mark ';', [])] ++ rest) :=
      (endsNumber_cons ';' rest).2 (by decide)
    exact ⟨stands_piece h (hgaps.1.endsNumber hstop), stands_mark (by decide) nofun, trivial⟩
  obtain ⟨hgap, hgap₀, hgap₁, hgaps⟩ := hgaps
  refine ⟨stands_word (Lexeme.isWord_of_all rfl rfl) (hgap.ends hne _).1,
    stands_word hname (hgap₀.endsWord ?_), hequals _, ?_⟩
  · rw [spread_cons, show (mark '=').text.toList = ['='] from rfl]
    exact hend _
  cases sign with
  | none => exact hvalue rfl hgaps
  | some s =>
    refine ⟨stands_mark ?_ ?_, hvalue rfl hgaps.2⟩
    · obtain rfl | rfl := hsign s rfl <;> decide
    · obtain rfl | rfl := hsign s rfl <;> simp

theorem spelled_reads {c d : Cursor} {name : String} {sign : Option Char}
    (hsign : ∀ s ∈ sign, s = '+' ∨ s = '-') (hfinite : ℓ.value < Single.overflow)
    {gaps : Fin 4 → List Char} (h : c.Reads ((ℓ.declared name sign gaps).map Prod.fst) d) :
    ∃ v, Initialization.Spelled limits c.upcoming c (.single (.scalar v)) d ∧
      c.upcoming.text = name ∧ Single.Rounds (sign = some '-') ℓ.value v := by
  rw [map_fst_declared] at h
  obtain ⟨c₁, ⟨hshown, hequals, hc₁⟩, h⟩ := Cursor.reads_append.1 h
  obtain ⟨c₂, hvalue, hstop, hd⟩ := Cursor.reads_append.1 h
  obtain ⟨v, hv, hrounds⟩ := signed_reads hsign hfinite hvalue
  exact ⟨v, .single ⟨⟨hshown.1, rfl⟩, hequals.1, hc₁⟩ (.scalar hv) ⟨hstop.1, hd⟩, hshown.2, hrounds⟩

end Literal

namespace ProgramReader

variable {r : ProgramReader}

/-- A parameter with a finite literal is accepted, and its four components are the number. -/
theorem step_literal (hrun : r.status = .running) (h : ¬ ℓ.Severed) (hfinite : ℓ.value < Single.overflow)
    {name : String} (hword : Lexeme.IsWord name.toList)
    (hname : r.progress.draft.checkName name = .ok ()) {sign : Option Char}
    (hsign : ∀ s ∈ sign, s = '+' ∨ s = '-') {gap : List Char} (hne : gap ≠ [])
    {gaps : Fin 4 → List Char} {before after : String}
    (hgaps : Gapped after.toList (ℓ.parameter name sign gap gaps)) :
    let written := String.ofList (spread (ℓ.parameter name sign gap gaps))
    let source := before ++ (written ++ after)
    ∃ (c : Cursor) (t : Token) (v : Single),
      (r.resume source before.utf8ByteSize).step kind limits =
        { progress := ⟨c, r.progress.draft.withParam t (.param (.constant (.replicate v)))⟩ } ∧
      t.text = name ∧ Single.Rounds (sign = some '-') ℓ.value v ∧
      c.rest = Token.significant source (before.utf8ByteSize + written.utf8ByteSize) := by
  intro written source
  obtain ⟨hopens, d, hreads, hrest⟩ := Cursor.ofSource_reads_spread before after
    (Literal.spread_parameter h hword hsign hne hgaps) hgaps
  obtain ⟨v, hspelled, htext, hrounds⟩ := Literal.spelled_reads hsign hfinite hreads
  obtain ⟨k, hk, hparam⟩ := (Parse.param_spelled r.progress.draft hspelled).1
    ⟨⟨trivial, rfl⟩, by rwa [htext]⟩
  obtain rfl : k = .param (.constant (.replicate v)) := by
    cases hk with
    | single hexpand => rw [← (List.cons.inj hexpand).1]
  refine ⟨d, _, v, ?_, htext, hrounds, hrest⟩
  rw [step_eq_of_param (r := r.resume source _) hrun ⟨hopens.1, hopens.2⟩]
  rw [show Parse.param limits (r.resume source before.utf8ByteSize).progress = _ from hparam]

end ProgramReader

/-! ## Literals are read -/

theorem Literal.ofSource_eq (h : ¬ ℓ.Severed) (before after : String) (hafter : EndsNumber after.toList) :
    ∃ t : Token, t.kind = ℓ.kind ∧ t.text = String.ofList ℓ.text ∧ t.offset = before.utf8ByteSize ∧
      Token.ofSource (before ++ (t.text ++ after)) t.offset =
        t :: Token.ofSource (before ++ (t.text ++ after)) t.stop := by
  obtain ⟨c, cs, htext, hscan⟩ := Lexeme.scan_literal h hafter
  obtain ⟨t, hkind, hoffset, ht, hfirst⟩ :=
    exists_scanFrom_cons before.utf8ByteSize c (cs ++ after.toList)
  rw [hscan] at hkind ht hfirst
  refine ⟨t, hkind, ht, hoffset, ?_⟩
  have hlist : (t.text ++ after).toList = c :: (cs ++ after.toList) := by
    rw [String.toList_append, ht, String.toList_ofList, htext, List.cons_append]
  have hstop : t.stop = (before ++ t.text).utf8ByteSize := by
    rw [Token.stop, Token.length, String.utf8ByteSize_append, hoffset]
  have hsize : Text.byteLength ℓ.text = t.text.utf8ByteSize := by
    rw [← Text.byteLength_toList, ht, String.toList_ofList]
  rw [hstop, ← String.append_assoc, Token.ofSource_append, String.append_assoc, hoffset,
    Token.ofSource_append, hlist, hfirst, String.utf8ByteSize_append, hsize]

/-- **A literal is read.** Unless it has an exponent right behind its point, it is one token wherever no
number goes on behind it: a whole number below `2 ^ 32` if it is digits only, and otherwise its value,
rounded. A running reader accepts a parameter under a new name with a finite literal as its value,
behind a sign or none, whatever gaps are between the tokens. -/
theorem literal_isRead (h : ¬ ℓ.Severed) :
    (∀ before after : String, EndsNumber after.toList →
      ∃ t : Token, t.kind = ℓ.kind ∧ t.text = String.ofList ℓ.text ∧ t.offset = before.utf8ByteSize ∧
        Token.ofSource (before ++ (t.text ++ after)) t.offset =
          t :: Token.ofSource (before ++ (t.text ++ after)) t.stop) ∧
    Single.Rounds false ℓ.value ℓ.single ∧
    (ℓ.value < Single.overflow → ∀ (kind : ProgramKind) (limits : Limits) (r : ProgramReader)
      (name : String) (sign : Option Char) (gap : List Char) (gaps : Fin 4 → List Char)
      (before after : String), r.status = .running → Lexeme.IsWord name.toList →
      r.progress.draft.checkName name = .ok () → (∀ s ∈ sign, s = '+' ∨ s = '-') → gap ≠ [] →
      Gapped after.toList (ℓ.parameter name sign gap gaps) →
      let written := String.ofList (spread (ℓ.parameter name sign gap gaps))
      let source := before ++ (written ++ after)
      ∃ (c : Cursor) (t : Token) (v : Single),
        (r.resume source before.utf8ByteSize).step kind limits =
          { progress := ⟨c, r.progress.draft.withParam t (.param (.constant (.replicate v)))⟩ } ∧
        t.text = name ∧ Single.Rounds (sign = some '-') ℓ.value v ∧
        c.rest = Token.significant source (before.utf8ByteSize + written.utf8ByteSize)) :=
  ⟨Literal.ofSource_eq h, ℓ.rounds_single, fun hfinite _ _ _ _ _ _ _ _ _ hrun hword hname hsign hne
    hgaps => ProgramReader.step_literal hrun h hfinite hword hname hsign hne hgaps⟩

/-- The literal `12.5e-1`. -/
def fiveQuarters : Literal where
  whole := ['1', '2']
  fraction := some ['5']
  exponent := some ⟨'e', some '-', ['1'], .inl rfl, by rintro _ ⟨⟩; exact .inr rfl, by decide, by decide⟩
  isDigits := ⟨by decide, by decide⟩

theorem value_fiveQuarters : fiveQuarters.value = 5 / 4 := by
  change ((12 : ℕ) + (5 : ℕ) / 10 ^ 1 : ℚ) * 10 ^ (-1 : ℤ) = 5 / 4
  norm_num

/-- It is read before a comment, behind a sign and a line end. -/
theorem literal_isRead_fiveQuarters :
    let gaps : Fin 4 → List Char := ![[], [' '], ['\n'], "# 5/4\n".toList]
    let written := String.ofList (spread (fiveQuarters.parameter "p" (some '-') [' '] gaps))
    let r := ProgramReader.ofSource "" 0
    ¬ fiveQuarters.Severed ∧ written = "PARAM p= -\n12.5e-1# 5/4\n;" ∧
      ∃ (c : Cursor) (t : Token) (v : Single),
        (r.resume ("" ++ (written ++ "END")) "".utf8ByteSize).step .vertex (Limits.ofKind .vertex) =
          { progress := ⟨c, r.progress.draft.withParam t (.param (.constant (.replicate v)))⟩ } ∧
        t.text = "p" ∧ Single.Rounds true (5 / 4) v := by
  intro gaps written r
  have hsevered : ¬ fiveQuarters.Severed := by
    rintro ⟨hfraction, -⟩
    cases hfraction
  have hgaps : Gapped "END".toList (fiveQuarters.parameter "p" (some '-') [' '] gaps) := by
    refine ⟨?_, ?_, ?_, ?_, ?_, ?_, trivial⟩
    · exact .single (by decide +kernel) (.inl rfl)
    · exact .nil
    · exact .single (by decide +kernel) (.inl rfl)
    · exact .single (by decide +kernel) (.inr rfl)
    · change Lexeme.IsGap _ ('#' :: " 5/4".toList ++ ['\n'])
      exact .cons (by decide +kernel) (.inl rfl) (.single (by decide +kernel) (.inr rfl))
    · exact .nil
  have hfinite : fiveQuarters.value < Single.overflow := by
    rw [value_fiveQuarters]
    norm_num [Single.overflow]
  obtain ⟨c, t, v, hstep, hname, hv, -⟩ := (literal_isRead hsevered).2.2 hfinite .vertex
    (Limits.ofKind .vertex) r "p" (some '-') [' '] gaps "" "END" rfl (Lexeme.isWord_of_all rfl rfl)
    (by decide +kernel) (by rintro _ ⟨⟩; exact .inr rfl) (List.cons_ne_nil _ _) hgaps
  rw [value_fiveQuarters] at hv
  exact ⟨hsevered, by decide +kernel, c, t, v, hstep, hname, hv⟩

/-- The literal `1.e5`. -/
def severedLiteral : Literal where
  whole := ['1']
  fraction := some []
  exponent := some ⟨'e', none, ['5'], .inl rfl, nofun, by decide, by decide⟩
  isDigits := ⟨by decide, by decide⟩

theorem literal_severed : severedLiteral.text = "1.e5".toList ∧
    (Token.ofSource "1.e5" 0).map (fun t => (t.kind, t.text)) =
      [(.integer 1, "1"), (.dot, "."), (.identifier, "e5")] := by
  decide +kernel

end ShaderAssembly
