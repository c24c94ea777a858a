import Mathlib.Data.List.TakeWhile
import ShaderAssembly.Proofs.Lexing.Literal
import ShaderAssembly.Proofs.Spelling.Place
/-!
# What tokens are made of

* `Lexeme.Blanks`, `Lexeme.InLine`: runs of blanks, and texts within a line;
* `Lexeme.Shape`: the forms of a token, with what has to follow it;
* `Lexeme.shape_scan`: every token that is scanned has one of these forms;
* **`Lexeme.scan_alone`**: a token is scanned again where its text stands alone;
* `Lexeme.Classified`: how the class of a token goes with its text;
* **`Token.classified_of_mem_ofSource`**: every token that is read is classified by its text.
-/

namespace ShaderAssembly

namespace Lexeme

/-! ## Blanks and lines -/

/-- A line ends where the text starts. -/
def BreaksLine (cs : List Char) : Prop := ['\n'] <+: cs ∨ ['\r', '\n'] <+: cs

/-- A run of blanks, tabs, form feeds and carriage returns, none of them before a line feed, where
`rest` follows. -/
def Blanks : List Char → List Char → Prop
  | [], _ => True
  | c :: run, rest =>
    (c ∈ [' ', '\t', '\x0c'] ∨ c = '\r' ∧ ¬ ['\n'] <+: run ++ rest) ∧ Blanks run rest

/-- No line ends within the run, where `rest` follows. -/
def InLine : List Char → List Char → Prop
  | [], _ => True
  | c :: run, rest => ¬ BreaksLine (c :: run ++ rest) ∧ InLine run rest

theorem isBlank_iff {c : Char} : isBlank c = true ↔ c ∈ [' ', '\t', '\x0c'] := by
  simp [isBlank, or_assoc]

theorem startsWith_newline {cs : List Char} :
    startsWith (· == '\n') cs = true ↔ ['\n'] <+: cs := by
  cases cs with
  | nil => simp [startsWith]
  | cons c cs =>
    rw [startsWith, beq_iff_eq, List.cons_prefix_cons]
    exact ⟨fun h => ⟨h.symm, List.nil_prefix⟩, fun h => h.1.symm⟩

theorem breaksLine_cons {c : Char} {cs : List Char} :
    BreaksLine (c :: cs) ↔ (c == '\n' || (c == '\r' && startsWith (· == '\n') cs)) = true := by
  rw [Bool.or_eq_true, Bool.and_eq_true, startsWith_newline, beq_iff_eq, beq_iff_eq, BreaksLine,
    List.cons_prefix_cons, List.cons_prefix_cons, eq_comm (a := c), eq_comm (a := c),
    and_iff_left List.nil_prefix]

theorem blanks_spec (cs : List Char) : Blanks (blanks cs).1 (blanks cs).2 := by
  fun_induction blanks cs with
  | case1 => trivial
  | case2 c cs h run rest heq ih =>
    have hsplit := blanks_append cs
    rw [heq] at ih hsplit
    refine ⟨?_, ih⟩
    rw [Bool.or_eq_true, isBlank_iff] at h
    refine h.imp_right fun h => ?_
    rw [Bool.and_eq_true, beq_iff_eq, Bool.not_eq_true', ← Bool.not_eq_true, startsWith_newline] at h
    rwa [← show run ++ rest = cs from hsplit] at h
  | case3 => trivial

theorem blanks_cons {c : Char} {cs : List Char} (hblank : (isBlank c || c == '\r') = true)
    (hline : ¬ (c == '\r' && startsWith (· == '\n') cs) = true) :
    blanks (c :: cs) = (c :: (blanks cs).1, (blanks cs).2) := by
  have hstart : (isBlank c || (c == '\r' && !startsWith (· == '\n') cs)) = true := by
    rw [Bool.and_eq_true, not_and] at hline
    rw [Bool.or_eq_true, Bool.and_eq_true, Bool.not_eq_true', ← Bool.not_eq_true]
    exact (Bool.or_eq_true _ _ ▸ hblank).imp_right fun h => ⟨h, hline h⟩
  rw [blanks, if_pos hstart]

/-- A run of blanks goes as far as it goes, also where nothing follows. -/
theorem blanks_eq_of_blanks {run rest : List Char} (h : Blanks run rest) : blanks run = (run, []) := by
  induction run with
  | nil => rfl
  | cons c run ih =>
    have hc : (isBlank c || (c == '\r' && !startsWith (· == '\n') run)) = true := by
      rw [Bool.or_eq_true, isBlank_iff]
      refine h.1.imp_right fun ⟨hreturn, hline⟩ => ?_
      rw [Bool.and_eq_true, beq_iff_eq, Bool.not_eq_true', ← Bool.not_eq_true, startsWith_newline]
      exact ⟨hreturn, fun hrun => hline (hrun.trans (List.prefix_append run rest))⟩
    simp [blanks, hc, ih h.2]

theorem restOfLine_spec (cs : List Char) : InLine (restOfLine cs).1 (restOfLine cs).2 ∧
    ((restOfLine cs).2 = [] ∨ BreaksLine (restOfLine cs).2) := by
  fun_induction restOfLine cs with
  | case1 => exact ⟨trivial, .inl rfl⟩
  | case2 c cs h => exact ⟨trivial, .inr (breaksLine_cons.2 h)⟩
  | case3 c cs h run rest heq ih =>
    have hsplit := restOfLine_append cs
    rw [heq] at ih hsplit
    refine ⟨⟨?_, ih.1⟩, ih.2⟩
    rw [List.cons_append, show run ++ rest = cs from hsplit, breaksLine_cons]
    exact h

/-- A run within a line goes as far as it goes, also where nothing follows. -/
theorem restOfLine_eq_of_inLine {run rest : List Char} (h : InLine run rest) :
    restOfLine run = (run, []) := by
  induction run with
  | nil => rfl
  | cons c run ih =>
    have hc : ¬ BreaksLine (c :: run) := fun hbreak =>
      h.1 (hbreak.imp (·.trans (List.prefix_append _ rest)) (·.trans (List.prefix_append _ rest)))
    rw [breaksLine_cons] at hc
    rw [restOfLine, if_neg hc, ih h.2]

/-! ## The forms of a token -/

/-- A character that starts neither a word nor a number, neither blanks nor a comment, and ends no
line. -/
structure IsMark (c : Char) : Prop where
  newline : c ≠ '\n'
  comment : c ≠ '#'
  carriageReturn : c ≠ '\r'
  blank : isBlank c = false
  word : isWordChar c = false

/-- The forms of a token: its class, its text, and what has to follow it. -/
inductive Shape : TokenKind → List Char → List Char → Prop
  | newline {rest : List Char} : Shape .newline ['\n'] rest
  | returnNewline {rest : List Char} : Shape .newline ['\r', '\n'] rest
  | blanks {c : Char} {run rest : List Char} : Blanks (c :: run) rest → Shape .whitespace (c :: run) rest
  | comment {run rest : List Char} : InLine run rest → rest = [] ∨ BreaksLine rest →
    Shape .whitespace ('#' :: run) rest
  | word {c : Char} {cs rest : List Char} : isWordStart c = true → cs.all isWordChar = true →
    (∀ d ∈ rest.head?, isWordChar d = false) → Shape .identifier (c :: cs) rest
  /-- Digits that run on into a letter, which starts no exponent. -/
  | digitsWord {whole : List Char} {c : Char} {cs rest : List Char} : IsDigits whole →
    isWordStart c = true → cs.all isWordChar = true → (exponentPart (c :: (cs ++ rest))).1 = [] →
    (∀ d ∈ rest.head?, isWordChar d = false) → Shape .identifier (whole ++ c :: cs) rest
  | number {ℓ : Literal} {rest : List Char} : ¬ ℓ.Severed → Shape ℓ.kind ℓ.text rest
  | dotDot {rest : List Char} : Shape .dotDot ['.', '.'] rest
  | mark {c : Char} {rest : List Char} : IsMark c → (c = '.' → EndsPoint rest) →
    Shape (punctuation c) [c] rest

theorem head_dropWhile (p : Char → Bool) (cs : List Char) :
    ∀ d ∈ (cs.dropWhile p).head?, p d = false := by
  intro d hd
  have h := List.head?_dropWhile_not p cs
  rw [show (cs.dropWhile p).head? = some d from hd] at h
  exact h

theorem head_rest_of_scanNumber {cs : List Char} (h : (scanNumber cs).kind = .identifier) :
    ∀ d ∈ (scanNumber cs).rest.head?, isWordChar d = false := by
  simp only [scanNumber] at h ⊢
  split at h
  case isFalse => exact absurd h (numberKind_ne_identifier _ _)
  rename_i hword
  rw [if_pos hword]
  exact head_dropWhile _ _

theorem shape_scanNumber {c : Char} {cs : List Char}
    (hc : c.isDigit = true ∨ c = '.' ∧ startsWith Char.isDigit cs = true) :
    Shape (scanNumber (c :: cs)).kind (scanNumber (c :: cs)).text (scanNumber (c :: cs)).rest := by
  by_cases hkind : (scanNumber (c :: cs)).kind = .identifier
  case neg =>
    obtain ⟨ℓ, hℓ, hkind', htext⟩ := literal_of_scanNumber hc hkind
    rw [hkind', htext]
    exact .number hℓ
  obtain ⟨whole, d, tail, rest, hwhole, hd, htail, hpower, htext, hcs⟩ := word_of_scanNumber hkind
  have hrest : (scanNumber (c :: cs)).rest = rest := by
    have hsplit := scanNumber_append (c :: cs)
    rw [htext] at hsplit
    exact List.append_cancel_left (hsplit.trans (by rw [hcs, List.append_assoc, List.cons_append]))
  have hne : whole ≠ [] := by
    rintro rfl
    obtain ⟨rfl, rfl⟩ := List.cons.inj hcs
    obtain hc | ⟨rfl, -⟩ := hc
    · rw [isWordStart_of_isDigit hc] at hd
      cases hd
    · cases hd
  rw [hkind, htext, hrest]
  exact .digitsWord ⟨hne, hwhole⟩ hd htail hpower (hrest ▸ head_rest_of_scanNumber hkind)

/-- **Every token that is scanned has one of these forms.** -/
theorem shape_scan (c : Char) (cs : List Char) :
    Shape (scan c cs).kind (scan c cs).text (scan c cs).rest := by
  unfold scan
  split
  case isTrue => exact .newline
  rename_i hnewline
  split
  case isTrue => exact .returnNewline
  rename_i hreturn
  split
  case isTrue hblank =>
    have hrun := blanks_spec (c :: cs)
    rw [blanks_cons hblank hreturn] at hrun
    exact .blanks hrun
  rename_i hblank
  split
  case isTrue hcomment =>
    obtain rfl := beq_iff_eq.1 hcomment
    obtain ⟨hline, hend⟩ := restOfLine_spec cs
    exact .comment hline hend
  rename_i hcomment
  split
  case isTrue hword => exact .word hword List.all_takeWhile (head_dropWhile _ _)
  rename_i hword
  split
  case isTrue hnumber => exact shape_scanNumber (by simpa using hnumber)
  rename_i hnumber
  split
  case isTrue => exact .dotDot
  rename_i hdots
  simp only [Bool.or_eq_true, Bool.and_eq_true, not_or, not_and, Bool.not_eq_true,
    beq_iff_eq] at hnewline hblank hcomment hword hnumber hdots
  refine .mark ⟨hnewline, hcomment, hblank.2, hblank.1, by simp [isWordChar, hword, hnumber.1]⟩ ?_
  rintro rfl
  cases cs with
  | nil => exact endsPoint_nil
  | cons d ds =>
    have hdigit := hnumber.2 rfl
    have hpoint := hdots rfl
    exact (endsPoint_cons d ds).2 ⟨by simpa [startsWith] using hpoint, hdigit⟩

/-- A mark is a token of its own, whatever follows, but for a point before a digit or a point. -/
theorem IsMark.scan {c : Char} (hc : IsMark c) {rest : List Char} (hrest : c = '.' → EndsPoint rest) :
    scan c rest = ⟨punctuation c, [c], rest⟩ := by
  have hword := hc.word
  simp only [isWordChar, Bool.or_eq_false_iff] at hword
  by_cases hpoint : c = '.'
  · have hend := hrest hpoint
    have hnext (p : Char → Bool) (hp : ∀ d, d ≠ '.' ∧ d.isDigit = false → p d = false) :
        startsWith p rest = false := by
      cases rest with
      | nil => rfl
      | cons d ds => exact hp d (hend d rfl)
    have hdot := hnext (· == '.') fun d hd => beq_eq_false_iff_ne.2 hd.1
    have hdigit := hnext Char.isDigit fun d hd => hd.2
    simp [Lexeme.scan, hc.newline, hc.comment, hc.blank, hc.carriageReturn, hword, hdot, hdigit]
  · simp [Lexeme.scan, hc.newline, hc.comment, hc.blank, hc.carriageReturn, hword, hpoint]

/-! ## Tokens that stand alone -/

/-- **A token is scanned again where its text stands alone.** -/
theorem scan_alone {kind : TokenKind} {text rest : List Char} (h : Shape kind text rest) :
    ∃ c cs, text = c :: cs ∧ scan c cs = ⟨kind, text, []⟩ := by
  cases h with
  | newline => exact ⟨'\n', [], rfl, rfl⟩
  | returnNewline => exact ⟨'\r', ['\n'], rfl, rfl⟩
  | @blanks c run _ hrun =>
    refine ⟨c, run, rfl, ?_⟩
    have hblank : (isBlank c || (c == '\r' && !startsWith (· == '\n') run)) = true := by
      by_contra h
      have hall := blanks_eq_of_blanks hrun
      rw [blanks, if_neg h] at hall
      cases hall
    have hnewline : (c == '\n') = false := by
      rw [beq_eq_false_iff_ne]
      rintro rfl
      cases hblank
    have hreturn : (c == '\r' && startsWith (· == '\n') run) = false := by
      cases hline : startsWith (· == '\n') run with
      | false => rw [Bool.and_false]
      | true =>
        rw [hline, Bool.not_true, Bool.and_false, Bool.or_false] at hblank
        rw [Bool.and_true, beq_eq_false_iff_ne]
        rintro rfl
        cases hblank
    have hstart : (isBlank c || c == '\r') = true := by
      rw [Bool.or_eq_true, Bool.and_eq_true] at hblank
      rw [Bool.or_eq_true]
      exact hblank.imp_right And.left
    simp [scan, hnewline, hreturn, hstart, blanks_eq_of_blanks hrun.2]
  | @comment run _ hline _ =>
    refine ⟨'#', run, rfl, ?_⟩
    have hrest := restOfLine_eq_of_inLine hline
    simp [scan, isBlank, hrest]
  | @word c cs _ hc hcs _ =>
    rw [List.all_eq_true] at hcs
    exact ⟨c, cs, rfl, by
      rw [scan_wordStart hc, List.takeWhile_eq_self_iff.2 hcs, List.dropWhile_eq_nil_iff.2 hcs]⟩
  | @digitsWord whole c cs rest hwhole hc hcs hpower _ =>
    obtain ⟨d, ds, rfl, hd⟩ := hwhole.exists_cons
    refine ⟨d, ds ++ c :: cs, rfl, ?_⟩
    have hpower' := exponentPart_word hcs endsWord_nil hpower
    have hword := scanNumber_word_eq hwhole.2 hc hcs endsWord_nil hpower'
    rwa [List.append_nil, List.cons_append, ← scan_digit hd] at hword
  | number hℓ =>
    obtain ⟨c, cs, htext, hscan⟩ := scan_literal hℓ endsNumber_nil
    rw [List.append_nil] at hscan
    exact ⟨c, cs, htext, hscan⟩
  | dotDot => exact ⟨'.', ['.'], rfl, rfl⟩
  | @mark c _ hc _ => exact ⟨c, [], rfl, hc.scan fun _ => endsPoint_nil⟩

namespace Shape

variable {kind kind' : TokenKind} {text rest rest' : List Char}

theorem kind_eq (h : Shape kind text rest) (h' : Shape kind' text rest') : kind = kind' := by
  obtain ⟨c, cs, rfl, hscan⟩ := scan_alone h
  obtain ⟨d, ds, hcons, hscan'⟩ := scan_alone h'
  obtain ⟨rfl, rfl⟩ := List.cons.inj hcons
  exact congrArg Lexeme.kind (hscan.symm.trans hscan')

theorem literal {ℓ : Literal} (h : Shape kind ℓ.text rest) : kind = ℓ.kind := by
  by_cases hsevered : ℓ.Severed
  case neg => exact h.kind_eq (show Shape _ _ [] from .number hsevered)
  obtain ⟨c, cs, htext, hscan⟩ := scan_alone h
  obtain ⟨d, ds, htext', hwhole⟩ := scan_severed hsevered []
  obtain ⟨rfl, rfl⟩ := List.cons.inj (htext.symm.trans htext')
  rw [List.append_nil, hscan] at hwhole
  have hlength := congrArg List.length (show ℓ.text = ℓ.whole from hwhole)
  rw [Literal.text, Literal.fractionText, hsevered.1] at hlength
  simp only [Option.elim_some, List.length_append, List.length_cons] at hlength
  omega

end Shape

/-! ## Classes of tokens -/

/-- How the class of a token goes with its text, where `rest` follows. -/
structure Classified (kind : TokenKind) (text rest : List Char) : Prop where
  /-- Whole numbers below `2 ^ 32`. -/
  integer : ∀ n, kind = .integer n ↔ IsDigits text ∧ Decimal.ofDigits text = n ∧ n < UInt32.size
  /-- All other literals, with their rounded numbers. -/
  float : ∀ v, kind = .float v ↔ ∃ ℓ : Literal, ℓ.text = text ∧
    (ℓ.IsWhole → UInt32.size ≤ Decimal.ofDigits text) ∧ ℓ.single = v
  /-- The longest words that are neither digits nor digits with an exponent. -/
  identifier : kind = .identifier ↔ (text ≠ [] ∧ text.all isWordChar = true) ∧ ¬ IsDigits text ∧
    ¬ ∃ whole, ∃ e : Exponent, IsDigits whole ∧ text = whole ++ e.text
  longest : kind = .identifier → ∀ c ∈ rest.head?, isWordChar c = false
  newline : kind = .newline ↔ text = ['\n'] ∨ text = ['\r', '\n']
  /-- Runs of blanks, and comments up to the end of the line or of the text. -/
  whitespace : kind = .whitespace ↔ (text ≠ [] ∧ Blanks text rest) ∨
    ∃ run, text = '#' :: run ∧ InLine run rest ∧ (rest = [] ∨ BreaksLine rest)
  /-- A character that starts no other token, whatever follows. -/
  invalid : ∀ c, kind = .invalid c → text = [c] ∧ ∀ cs, scan c cs = ⟨.invalid c, [c], cs⟩

section

variable {kind : TokenKind} {text rest : List Char}

theorem kind_eq_integer {ℓ : Literal} {n : Nat} (h : ℓ.kind = .integer n) :
    ℓ.IsWhole ∧ Decimal.ofDigits ℓ.whole = n ∧ n < UInt32.size := by
  unfold Literal.kind at h
  split at h
  · rename_i hwhole
    obtain rfl := TokenKind.integer.inj h
    exact ⟨hwhole.1, rfl, hwhole.2⟩
  · cases h

theorem kind_eq_float {ℓ : Literal} {v : Single} (h : ℓ.kind = .float v) :
    (ℓ.IsWhole → UInt32.size ≤ Decimal.ofDigits ℓ.whole) ∧ ℓ.single = v := by
  unfold Literal.kind at h
  split at h
  · cases h
  · rename_i hwhole
    exact ⟨fun hℓ => Nat.not_lt.1 fun hlt => hwhole ⟨hℓ, hlt⟩, TokenKind.float.inj h⟩

theorem text_of_isWhole {ℓ : Literal} (h : ℓ.IsWhole) : ℓ.text = ℓ.whole ∧ IsDigits ℓ.whole := by
  have hdigits := ℓ.isDigits
  rw [h.1, Option.getD_none, List.append_nil] at hdigits
  obtain ⟨hfraction, hexponent⟩ := ℓ.isWhole_iff.1 h
  rw [Literal.text, hfraction, hexponent, List.append_nil, List.append_nil]
  exact ⟨rfl, hdigits⟩

/-- Digits as a literal. -/
def wholeLiteral (h : IsDigits text) : Literal :=
  ⟨text, none, none, by rwa [Option.getD_none, List.append_nil]⟩

theorem text_wholeLiteral (h : IsDigits text) : (wholeLiteral h).text = text :=
  (text_of_isWhole (ℓ := wholeLiteral h) ⟨rfl, rfl⟩).1

theorem isDigit_of_isWordStart {c : Char} (h : isWordStart c = true) : c.isDigit = false := by
  cases hdigit : c.isDigit with
  | false => rfl
  | true =>
    rw [isWordStart_of_isDigit hdigit] at h
    cases h

theorem literalKind_ne (ℓ : Literal) {k : TokenKind} (hinteger : ∀ n, k ≠ .integer n)
    (hfloat : ∀ v, k ≠ .float v) : ℓ.kind ≠ k := by
  unfold Literal.kind
  split
  · exact (hinteger _).symm
  · exact (hfloat _).symm

theorem punctuation_ne (c : Char) (n : Nat) (v : Single) :
    ∀ k ∈ [TokenKind.newline, .whitespace, .integer n, .float v], punctuation c ≠ k := by
  unfold punctuation
  split <;> simp

theorem Shape.integer_iff (h : Shape kind text rest) (n : Nat) :
    kind = .integer n ↔ IsDigits text ∧ Decimal.ofDigits text = n ∧ n < UInt32.size := by
  refine ⟨fun hk => ?_, fun ⟨hdigits, hvalue, hn⟩ => ?_⟩
  · cases h with
    | @number ℓ =>
      obtain ⟨hwhole, hvalue, hn⟩ := kind_eq_integer hk
      obtain ⟨htext, hdigits⟩ := text_of_isWhole hwhole
      rw [htext]
      exact ⟨hdigits, hvalue, hn⟩
    | @mark c => exact absurd hk (punctuation_ne c n default _ (by simp))
    | _ => cases hk
  · rw [← text_wholeLiteral hdigits] at h
    rw [h.literal, Literal.kind, if_pos ⟨⟨rfl, rfl⟩, by rwa [← hvalue] at hn⟩]
    exact congrArg TokenKind.integer hvalue

theorem Shape.float_iff (h : Shape kind text rest) (v : Single) :
    kind = .float v ↔ ∃ ℓ : Literal, ℓ.text = text ∧
      (ℓ.IsWhole → UInt32.size ≤ Decimal.ofDigits text) ∧ ℓ.single = v := by
  refine ⟨fun hk => ?_, ?_⟩
  · cases h with
    | @number ℓ =>
      obtain ⟨hlarge, hv⟩ := kind_eq_float hk
      exact ⟨ℓ, rfl, fun hwhole => (text_of_isWhole hwhole).1 ▸ hlarge hwhole, hv⟩
    | @mark c => exact absurd hk (punctuation_ne c 0 v _ (by simp))
    | _ => cases hk
  · rintro ⟨ℓ, rfl, hlarge, rfl⟩
    rw [h.literal, Literal.kind, if_neg]
    rintro ⟨hwhole, hsmall⟩
    have := hlarge hwhole
    rw [(text_of_isWhole hwhole).1] at this
    omega

theorem Shape.of_identifier (h : Shape kind text rest) (hk : kind = .identifier) :
    (text ≠ [] ∧ text.all isWordChar = true) ∧ ¬ IsDigits text ∧
      ¬ ∃ whole, ∃ e : Exponent, IsDigits whole ∧ text = whole ++ e.text := by
  cases h with
  | @word c cs _ hc hcs =>
    have hdigit := isDigit_of_isWordStart hc
    refine ⟨⟨List.cons_ne_nil _ _, by simp [isWordChar, hc, hcs]⟩, fun h => ?_, ?_⟩
    · obtain ⟨d, ds, hd, hd'⟩ := h.exists_cons
      obtain ⟨rfl, rfl⟩ := List.cons.inj hd
      rw [hdigit] at hd'
      cases hd'
    · rintro ⟨whole, e, hwhole, htext⟩
      obtain ⟨d, ds, rfl, hd⟩ := hwhole.exists_cons
      obtain ⟨rfl, -⟩ := List.cons.inj htext
      rw [hdigit] at hd
      cases hd
  | @digitsWord whole c cs rest hwhole hc hcs hpower hrest =>
    have hdigit := isDigit_of_isWordStart hc
    have hall : whole.all isWordChar = true := List.all_eq_true.2 fun d hd => by
      simp [isWordChar, List.all_eq_true.1 hwhole.2 d hd]
    refine ⟨⟨by simp, by simp [hall, isWordChar, hc, hcs]⟩, fun h => ?_, ?_⟩
    · have := List.all_eq_true.1 h.2 c (by simp)
      rw [hdigit] at this
      cases this
    · rintro ⟨whole', e, hwhole', htext⟩
      have hletter : ∀ d ∈ e.text.head?, d.isDigit = false := by
        simpa [Exponent.text] using isDigit_eq_false e.isLetter
      have hstart : ∀ d ∈ (c :: cs).head?, d.isDigit = false := by simpa using hdigit
      have hpart := (takeWhile_append_of_all hwhole.2 hstart).2
      have hpart' := (takeWhile_append_of_all hwhole'.2 hletter).2
      rw [htext, hpart'] at hpart
      have hexponent := e.exponentPart_append fun d hd => isDigit_of_isWordChar (hrest d hd)
      rw [hpart, List.cons_append] at hexponent
      rw [hexponent] at hpower
      cases hpower
  | @number ℓ => exact absurd hk (literalKind_ne ℓ (by simp) (by simp))
  | @mark c => exact absurd hk (punctuation_ne_identifier c)
  | _ => cases hk

theorem digits_of_all_isWordChar {ℓ : Literal} (h : ℓ.text.all isWordChar = true) :
    IsDigits ℓ.text ∨ ∃ whole, ∃ e : Exponent, IsDigits whole ∧ ℓ.text = whole ++ e.text := by
  have hfraction : ℓ.fraction = none := by
    cases hfraction : ℓ.fraction with
    | none => rfl
    | some part =>
      have := List.all_eq_true.1 h '.' (by simp [Literal.text, Literal.fractionText, hfraction])
      cases this
  have hwhole : IsDigits ℓ.whole := by
    have hdigits := ℓ.isDigits
    rwa [hfraction, Option.getD_none, List.append_nil] at hdigits
  cases hexponent : ℓ.exponent with
  | none => exact .inl ((text_of_isWhole ⟨hfraction, hexponent⟩).1 ▸ hwhole)
  | some e =>
    refine .inr ⟨ℓ.whole, e, hwhole, ?_⟩
    simp [Literal.text, Literal.fractionText, Literal.exponentText, hfraction, hexponent]

theorem Shape.identifier_iff (h : Shape kind text rest) :
    kind = .identifier ↔ (text ≠ [] ∧ text.all isWordChar = true) ∧ ¬ IsDigits text ∧
      ¬ ∃ whole, ∃ e : Exponent, IsDigits whole ∧ text = whole ++ e.text := by
  refine ⟨h.of_identifier, fun ⟨⟨_, hall⟩, hdigits, hpower⟩ => ?_⟩
  cases h with
  | word => rfl
  | digitsWord => rfl
  | number => exact ((digits_of_all_isWordChar hall).elim hdigits hpower).elim
  | @mark c _ hc =>
    rw [List.all_cons, hc.word] at hall
    cases hall
  | @blanks c run _ hrun =>
    have hblank : isWordChar c = false := by
      have h := hrun.1
      simp only [List.mem_cons, List.not_mem_nil, or_false] at h
      obtain (rfl | rfl | rfl) | ⟨rfl, -⟩ := h <;> rfl
    rw [List.all_cons, hblank] at hall
    cases hall
  | newline | returnNewline | comment | dotDot =>
    rw [List.all_cons] at hall
    cases hall

theorem Shape.longest (h : Shape kind text rest) (hk : kind = .identifier) :
    ∀ c ∈ rest.head?, isWordChar c = false := by
  cases h with
  | word _ _ hrest => exact hrest
  | digitsWord _ _ _ _ hrest => exact hrest
  | @number ℓ => exact absurd hk (literalKind_ne ℓ (by simp) (by simp))
  | @mark c => exact absurd hk (punctuation_ne_identifier c)
  | _ => cases hk

theorem Shape.newline_iff (h : Shape kind text rest) :
    kind = .newline ↔ text = ['\n'] ∨ text = ['\r', '\n'] := by
  refine ⟨fun hk => ?_, ?_⟩
  · cases h with
    | newline => exact .inl rfl
    | returnNewline => exact .inr rfl
    | @number ℓ => exact absurd hk (literalKind_ne ℓ (by simp) (by simp))
    | @mark c => exact absurd hk (punctuation_ne c 0 default _ (by simp))
    | _ => cases hk
  · rintro (rfl | rfl)
    · exact h.kind_eq (show Shape _ _ [] from .newline)
    · exact h.kind_eq (show Shape _ _ [] from .returnNewline)

theorem Shape.whitespace_iff (h : Shape kind text rest) :
    kind = .whitespace ↔ (text ≠ [] ∧ Blanks text rest) ∨
      ∃ run, text = '#' :: run ∧ InLine run rest ∧ (rest = [] ∨ BreaksLine rest) := by
  refine ⟨fun hk => ?_, ?_⟩
  · cases h with
    | blanks hrun => exact .inl ⟨List.cons_ne_nil _ _, hrun⟩
    | comment hline hend => exact .inr ⟨_, rfl, hline, hend⟩
    | @number ℓ => exact absurd hk (literalKind_ne ℓ (by simp) (by simp))
    | @mark c => exact absurd hk (punctuation_ne c 0 default _ (by simp))
    | _ => cases hk
  · rintro (⟨hne, hrun⟩ | ⟨run, rfl, hline, hend⟩)
    · obtain ⟨c, run, rfl⟩ := List.exists_cons_of_ne_nil hne
      exact h.kind_eq (.blanks hrun)
    · exact h.kind_eq (.comment hline hend)

theorem Shape.invalid (h : Shape kind text rest) (c : Char) (hk : kind = .invalid c) :
    text = [c] ∧ ∀ cs, scan c cs = ⟨.invalid c, [c], cs⟩ := by
  cases h with
  | @number ℓ => exact absurd hk (literalKind_ne ℓ (by simp) (by simp))
  | @mark d _ hd =>
    have hother : punctuation d = .invalid d ∧ d ≠ '.' := by
      unfold punctuation at hk ⊢
      split at hk
      case h_11 hpoint _ _ _ _ _ _ _ => exact ⟨rfl, hpoint⟩
      all_goals cases hk
    obtain rfl := TokenKind.invalid.inj (hother.1.symm.trans hk)
    refine ⟨rfl, fun cs => ?_⟩
    rw [hd.scan fun hpoint => absurd hpoint hother.2, hother.1]
  | _ => cases hk

theorem Shape.kind_ne_endOfText (h : Shape kind text rest) : kind ≠ .endOfText := by
  cases h with
  | @number ℓ => exact literalKind_ne ℓ (by simp) (by simp)
  | @mark c =>
    unfold punctuation
    split <;> exact nofun
  | _ => exact nofun

theorem classified_of_shape (h : Shape kind text rest) : Classified kind text rest :=
  ⟨h.integer_iff, h.float_iff, h.identifier_iff, h.longest, h.newline_iff, h.whitespace_iff, h.invalid⟩

end

end Lexeme

/-! ## Tokens of a text -/

namespace Token

variable {source : String} {start : Nat}

theorem ofSource_eq_singleton {t : Token} {c : Char} {cs : List Char} (htext : t.text.toList = c :: cs)
    (hscan : Lexeme.scan c cs = ⟨t.kind, t.text.toList, []⟩) :
    ofSource t.text 0 = [{ t with offset := 0 }] := by
  have hstart : Text.splitBytes 0 (c :: cs) = ([], c :: cs) := Text.splitBytes_append_left [] (c :: cs)
  rw [ofSource, htext, hstart]
  dsimp only
  rw [Text.byteLength_nil, scanFrom]
  simp only [hscan, String.ofList_toList, scanFrom]

/-- **The class of a token goes with its text, and tokens stand alone.** -/
theorem classified_of_mem_ofSource {t : Token} (h : t ∈ ofSource source start) :
    (∃ before after, source.toList = before ++ t.text.toList ++ after ∧
      Text.byteLength before = t.offset ∧ Lexeme.Classified t.kind t.text.toList after) ∧
    ofSource t.text 0 = [{ t with offset := 0 }] := by
  obtain ⟨before, c, cs, hsource, hoffset, hkind, htext⟩ := exists_scan_of_mem_ofSource h
  have hshape := Lexeme.shape_scan c cs
  rw [hkind, htext] at hshape
  refine ⟨⟨before, _, ?_, hoffset, Lexeme.classified_of_shape hshape⟩, ?_⟩
  · rw [hsource, List.append_assoc, ← htext, Lexeme.text_append_rest]
  · obtain ⟨d, ds, hcons, hscan⟩ := Lexeme.scan_alone hshape
    exact ofSource_eq_singleton hcons hscan

/-- A number that ends where a word starts, before a comment that is not written in Latin letters. -/
theorem classified_powerBeforeWord :
    let source := "MOV 1e5x;\r\n# é"
    let t : Token := { kind := .float (.finite false 12800000 (-7)), offset := 4, text := "1e5" }
    t ∈ ofSource source 0 ∧
      (∃ before after, source.toList = before ++ t.text.toList ++ after ∧
        Text.byteLength before = t.offset ∧ Lexeme.Classified t.kind t.text.toList after) ∧
      ofSource t.text 0 = [{ t with offset := 0 }] := by
  intro source t
  have hmem : t ∈ ofSource source 0 := by decide +kernel
  exact ⟨hmem, classified_of_mem_ofSource hmem⟩

end Token

end ShaderAssembly
