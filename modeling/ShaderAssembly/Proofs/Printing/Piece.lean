import Mathlib.Data.List.Forall2
import ShaderAssembly.Proofs.Parsing.Extent
/-!
# Texts that are read back

A text that is written piece by piece is read back as the tokens that were meant, if each piece is
closed off by what follows it.

* `EndsWord`, `EndsNumber`, `EndsPoint`: texts that close off a piece;
* `Lexeme.IsWord`: a text that the lexer reads as a word somewhere; it may start with digits;
* `Piece`, `Piece.StandsBefore`: a token to be written, and the texts before which it is read back;
* `Piece.Stand`: pieces that stand before each other;
* **`Piece.exists_shown`**: such pieces are read back.
-/

namespace ShaderAssembly

/-! ## What closes a piece off -/

/-- Neither a word goes on with the text nor the exponent of a number. -/
def EndsWord (rest : List Char) : Prop :=
  ∀ c ∈ rest.head?, isWordChar c = false ∧ c ≠ '+' ∧ c ≠ '-'

/-- No number goes on with the text. -/
def EndsNumber (rest : List Char) : Prop := ∀ c ∈ rest.head?, isWordChar c = false ∧ c ≠ '.'

/-- A point before the text is a token of its own. -/
def EndsPoint (rest : List Char) : Prop := ∀ c ∈ rest.head?, c ≠ '.' ∧ c.isDigit = false

theorem endsWord_nil : EndsWord [] := by simp [EndsWord]

theorem endsNumber_nil : EndsNumber [] := by simp [EndsNumber]

theorem endsPoint_nil : EndsPoint [] := by simp [EndsPoint]

@[simp] theorem endsWord_cons (c : Char) (cs : List Char) :
    EndsWord (c :: cs) ↔ isWordChar c = false ∧ c ≠ '+' ∧ c ≠ '-' := by
  simp [EndsWord]

@[simp] theorem endsNumber_cons (c : Char) (cs : List Char) :
    EndsNumber (c :: cs) ↔ isWordChar c = false ∧ c ≠ '.' := by
  simp [EndsNumber]

@[simp] theorem endsPoint_cons (c : Char) (cs : List Char) :
    EndsPoint (c :: cs) ↔ c ≠ '.' ∧ c.isDigit = false := by
  simp [EndsPoint]

theorem EndsWord.isWordChar {rest : List Char} (h : EndsWord rest) :
    ∀ c ∈ rest.head?, isWordChar c = false := fun c hc => (h c hc).1

/-! ## Parts of numbers -/

theorem fractionPart_of_ne {c : Char} (hc : c ≠ '.') (cs : List Char) :
    fractionPart (c :: cs) = ([], c :: cs) := by
  simp [fractionPart, hc]

theorem fractionPart_of_endsNumber {rest : List Char} (h : EndsNumber rest) :
    fractionPart rest = ([], rest) := by
  cases rest with
  | nil => rfl
  | cons c cs => exact fractionPart_of_ne (h c rfl).2 cs

theorem isDigit_of_isWordChar {c : Char} (h : isWordChar c = false) : c.isDigit = false := by
  simp only [isWordChar, Bool.or_eq_false_iff] at h
  exact h.2

theorem exponentPart_of_endsNumber {rest : List Char} (h : EndsNumber rest) :
    exponentPart rest = ([], rest) := by
  cases rest with
  | nil => rfl
  | cons c cs =>
    have hc := (h c rfl).1
    have hne (d : Char) (hd : isWordChar d = true) : (c == d) = false :=
      beq_eq_false_of_class (p := isWordChar) (by rw [hc, hd]; rfl)
    simp [exponentPart, hne 'e' (by decide), hne 'E' (by decide)]

/-- A letter behind digits does not start an exponent because of what stands behind the word. -/
theorem exponentPart_word {c : Char} {cs rest rest' : List Char} (hcs : cs.all isWordChar = true)
    (hrest : EndsWord rest) (h : (exponentPart (c :: (cs ++ rest'))).1 = []) :
    exponentPart (c :: (cs ++ rest)) = ([], c :: (cs ++ rest)) := by
  by_cases hc : (c == 'e' || c == 'E') = true
  case neg => simp [exponentPart, hc]
  -- What decides is the next character: of the word, where there is one, and of the text only behind it.
  cases cs with
  | nil =>
    cases rest with
    | nil => simp [exponentPart, signPart, startsWith]
    | cons d ds =>
      obtain ⟨hd, hplus, hminus⟩ := hrest d rfl
      simp [exponentPart, signPart, startsWith, hplus, hminus, isDigit_of_isWordChar hd]
  | cons d ds =>
    have hd : isWordChar d = true := (List.all_eq_true.1 hcs) d List.mem_cons_self
    have hsign (x : Char) (hx : isWordChar x = false) : (d == x) = false :=
      beq_eq_false_of_class (p := isWordChar) (by rw [hd, hx]; rfl)
    have hplus := hsign '+' (by decide)
    have hminus := hsign '-' (by decide)
    cases hdigit : d.isDigit with
    | false => simp [exponentPart, signPart, startsWith, hplus, hminus, hdigit]
    | true => simp [exponentPart, signPart, startsWith, hplus, hminus, hdigit, hc] at h

/-! ## Words -/

namespace Lexeme

/-- A text that is read as a word where some text follows it. -/
def IsWord (text : List Char) : Prop :=
  ∃ c cs, (scan c cs).kind = .identifier ∧ (scan c cs).text = text

theorem scan_wordStart {c : Char} (hc : isWordStart c = true) (cs : List Char) :
    scan c cs = ⟨.identifier, c :: cs.takeWhile isWordChar, cs.dropWhile isWordChar⟩ := by
  have hne (d : Char) (hd : isWordStart d = false) : (c == d) = false :=
    beq_eq_false_of_class (p := isWordStart) (by rw [hc, hd]; rfl)
  have hnewline := hne '\n' (by decide)
  have hreturn := hne '\r' (by decide)
  have hspace := hne ' ' (by decide)
  have htab := hne '\t' (by decide)
  have hfeed := hne '\x0c' (by decide)
  have hcomment := hne '#' (by decide)
  simp [scan, isBlank, hnewline, hreturn, hspace, htab, hfeed, hcomment, hc]

theorem scan_digit {c : Char} (hc : c.isDigit = true) (cs : List Char) :
    scan c cs = scanNumber (c :: cs) := by
  have hne (d : Char) (hd : d.isDigit = false) : (c == d) = false :=
    beq_eq_false_of_class (p := Char.isDigit) (by rw [hc, hd]; rfl)
  have hnewline := hne '\n' (by decide)
  have hreturn := hne '\r' (by decide)
  have hspace := hne ' ' (by decide)
  have htab := hne '\t' (by decide)
  have hfeed := hne '\x0c' (by decide)
  have hcomment := hne '#' (by decide)
  simp [scan, isBlank, hnewline, hreturn, hspace, htab, hfeed, hcomment, isWordStart_of_isDigit hc,
    hc]

theorem scanNumber_word_eq {whole tail rest : List Char} {c : Char}
    (hwhole : whole.all Char.isDigit = true) (hc : isWordStart c = true)
    (htail : tail.all isWordChar = true) (hrest : EndsWord rest)
    (hpower : exponentPart (c :: (tail ++ rest)) = ([], c :: (tail ++ rest))) :
    scanNumber (whole ++ c :: (tail ++ rest)) = ⟨.identifier, whole ++ c :: tail, rest⟩ := by
  have hdigit : c.isDigit = false := by
    cases e : c.isDigit with
    | false => rfl
    | true => rw [isWordStart_of_isDigit e] at hc; cases hc
  have hpoint : c ≠ '.' := by
    rintro rfl
    exact absurd hc (by decide)
  obtain ⟨htake, hdrop⟩ : (whole ++ c :: (tail ++ rest)).takeWhile Char.isDigit = whole ∧
      (whole ++ c :: (tail ++ rest)).dropWhile Char.isDigit = c :: (tail ++ rest) :=
    takeWhile_append_of_all hwhole (by simpa using hdigit)
  have hword : (c :: tail).all isWordChar = true := by simp [isWordChar, hc, htail]
  obtain ⟨htake', hdrop'⟩ := takeWhile_append_of_all hword hrest.isWordChar
  rw [List.cons_append] at htake' hdrop'
  simp only [scanNumber, htake, hdrop, fractionPart_of_ne hpoint, hpower, startsWith, hc, htake',
    hdrop']
  simp

theorem word_of_scanNumber {cs : List Char} (h : (scanNumber cs).kind = .identifier) :
    ∃ whole c tail rest, whole.all Char.isDigit = true ∧ isWordStart c = true ∧
      tail.all isWordChar = true ∧ (exponentPart (c :: (tail ++ rest))).1 = [] ∧
      (scanNumber cs).text = whole ++ c :: tail ∧ cs = whole ++ c :: (tail ++ rest) := by
  have hf := fractionPart_append (cs.dropWhile Char.isDigit)
  have he := exponentPart_append (fractionPart (cs.dropWhile Char.isDigit)).2
  simp only [scanNumber] at h ⊢
  split at h
  case isFalse => exact absurd h (numberKind_ne_identifier _ _)
  rename_i hword
  rw [if_pos hword]
  simp only [Bool.and_eq_true, List.isEmpty_iff] at hword
  obtain ⟨⟨hfraction, hpower⟩, hstart⟩ := hword
  rw [hfraction, List.nil_append] at hf
  rw [hpower, List.nil_append, hf] at he
  rw [hf] at hpower hstart ⊢
  obtain ⟨c, ds, hds, hc⟩ := startsWith_eq _ _ hstart
  refine ⟨cs.takeWhile Char.isDigit, c, ds.takeWhile isWordChar, ds.dropWhile isWordChar,
    List.all_takeWhile, hc, List.all_takeWhile, ?_, ?_, ?_⟩
  · rw [List.takeWhile_append_dropWhile, ← hds, he, hpower]
  · rw [hds]
    simp [isWordChar, hc]
  · rw [List.takeWhile_append_dropWhile, ← hds, he, List.takeWhile_append_dropWhile]

theorem scan_of_word {c : Char} {cs : List Char} (h : (scan c cs).kind = .identifier) :
    isWordStart c = true ∨ scan c cs = scanNumber (c :: cs) := by
  by_cases hc : isWordStart c = true
  · exact .inl hc
  refine .inr ?_
  unfold scan at h ⊢
  split at h
  · cases h
  split at h
  · cases h
  split at h
  · cases h
  split at h
  · cases h
  split at h
  · simp only [*]
    rfl
  split at h
  · cases h
  · exact absurd h (punctuation_ne_identifier c)

/-- **A word is read back where it is closed off.** -/
theorem IsWord.scan_append {text rest : List Char} (h : IsWord text) (hrest : EndsWord rest) :
    ∃ c cs, text = c :: cs ∧ scan c (cs ++ rest) = ⟨.identifier, text, rest⟩ := by
  obtain ⟨c, cs, hkind, rfl⟩ := h
  by_cases hc : isWordStart c = true
  · rw [scan_wordStart hc] at hkind ⊢
    refine ⟨c, _, rfl, ?_⟩
    have hword : (cs.takeWhile isWordChar).all isWordChar = true := List.all_takeWhile
    obtain ⟨htake, hdrop⟩ := takeWhile_append_of_all hword hrest.isWordChar
    rw [scan_wordStart hc, htake, hdrop]
  -- The word starts with digits, which run on into a letter that starts no exponent.
  have hnumber := (scan_of_word hkind).resolve_left hc
  rw [hnumber] at hkind ⊢
  obtain ⟨whole, d, tail, rest', hwhole, hd, htail, hpower, htext, hcs⟩ := word_of_scanNumber hkind
  rw [htext]
  cases whole with
  | nil =>
    cases hcs
    exact absurd hd hc
  | cons d' whole =>
    have hdigit : d'.isDigit = true := by simp_all
    refine ⟨d', whole ++ d :: tail, rfl, ?_⟩
    rw [scan_digit hdigit, List.append_assoc, List.cons_append]
    exact scanNumber_word_eq hwhole hd htail hrest (exponentPart_word htail hrest hpower)

/-! ## Numbers and marks -/

theorem scan_integer {n : Nat} (hn : n < UInt32.size) {rest : List Char} (hrest : EndsNumber rest) :
    ∃ c cs, Nat.toDigits 10 n = c :: cs ∧
      scan c (cs ++ rest) = ⟨.integer n, Nat.toDigits 10 n, rest⟩ := by
  have hdigits : (Nat.toDigits 10 n).all Char.isDigit = true :=
    List.all_eq_true.2 fun c => Nat.isDigit_of_mem_toDigits (by decide) (by decide)
  have hvalue : Decimal.ofDigits (Nat.toDigits 10 n) = n :=
    Nat.ofDigitChars_toDigits (by decide) (by decide)
  cases e : Nat.toDigits 10 n with
  | nil => exact absurd e Nat.toDigits_ne_nil
  | cons c cs =>
    rw [e] at hdigits hvalue
    have hc : c.isDigit = true := List.all_eq_true.1 hdigits c List.mem_cons_self
    obtain ⟨htake, hdrop⟩ :=
      takeWhile_append_of_all hdigits fun d hd => isDigit_of_isWordChar (hrest d hd).1
    have hstart : startsWith isWordStart rest = false := by
      cases rest with
      | nil => rfl
      | cons d ds =>
        have hd := (hrest d rfl).1
        simp only [isWordChar, Bool.or_eq_false_iff] at hd
        exact hd.1
    have hkind : numberKind true (c :: cs) = .integer n := by
      rw [numberKind, hvalue]
      exact if_pos (decide_eq_true hn)
    refine ⟨c, cs, rfl, ?_⟩
    rw [scan_digit hc, ← List.cons_append]
    simp only [scanNumber, htake, hdrop, fractionPart_of_endsNumber hrest,
      exponentPart_of_endsNumber hrest, hstart]
    simp [hkind]

/-- The characters that are tokens of their own, but for a point before a digit or another point. -/
def marks : List Char := [';', ',', '.', '[', ']', '+', '-']

theorem scan_mark {c : Char} (hc : c ∈ marks) {rest : List Char} (hrest : c = '.' → EndsPoint rest) :
    scan c rest = ⟨punctuation c, [c], rest⟩ := by
  have hother : c ≠ '.' → scan c rest = ⟨punctuation c, [c], rest⟩ := by
    intro hne
    simp only [marks, List.mem_cons, List.not_mem_nil, or_false] at hc
    rcases hc with rfl | rfl | rfl | rfl | rfl | rfl | rfl
    case inr.inr.inl => exact absurd rfl hne
    all_goals rfl
  by_cases hpoint : c = '.'
  case neg => exact hother hpoint
  subst hpoint
  cases rest with
  | nil => rfl
  | cons d ds =>
    obtain ⟨hd, hdigit⟩ := hrest rfl d rfl
    simp [scan, isBlank, startsWith, hd, hdigit, isWordStart]

end Lexeme

/-! ## Pieces -/

/-- A token to be written, behind a space or right behind the text before it. -/
structure Piece where
  kind : TokenKind
  text : String
  spaced : Bool := false

namespace Piece

/-- A word. -/
def word (text : String) : Piece := ⟨.identifier, text, false⟩

/-- A whole number. -/
def integer (n : Nat) : Piece := ⟨.integer n, toString n, false⟩

/-- A character that is a token of its own. -/
def mark (c : Char) : Piece := ⟨punctuation c, String.singleton c, false⟩

/-- The piece behind a space. -/
def behindSpace (p : Piece) : Piece := { p with spaced := true }

/-- The text of a piece, with the space before it. -/
def chars (p : Piece) : List Char := if p.spaced then ' ' :: p.text.toList else p.text.toList

/-- The text of pieces one behind the other. -/
def render (ps : List Piece) : List Char := ps.flatMap chars

@[simp] theorem render_nil : render [] = [] := rfl

@[simp] theorem render_cons (p : Piece) (ps : List Piece) : render (p :: ps) = p.chars ++ render ps :=
  rfl

@[simp] theorem render_append (ps qs : List Piece) : render (ps ++ qs) = render ps ++ render qs :=
  List.flatMap_append

/-- The piece is read back where `rest` follows it. -/
def StandsBefore (rest : List Char) (p : Piece) : Prop :=
  p.kind ≠ .whitespace ∧ p.kind ≠ .newline ∧
    ∃ c cs, p.text.toList = c :: cs ∧ Lexeme.scan c (cs ++ rest) = ⟨p.kind, p.text.toList, rest⟩

variable {rest : List Char} {p : Piece}

theorem stands_behindSpace : p.behindSpace.StandsBefore rest ↔ p.StandsBefore rest := Iff.rfl

theorem stands_word {text : String} (htext : Lexeme.IsWord text.toList) (hrest : EndsWord rest) :
    (word text).StandsBefore rest :=
  ⟨nofun, nofun, htext.scan_append hrest⟩

theorem stands_integer {n : Nat} (hn : n < UInt32.size) (hrest : EndsNumber rest) :
    (integer n).StandsBefore rest := by
  have htext : (toString n).toList = Nat.toDigits 10 n := by
    rw [Nat.toString_eq_repr, Nat.repr, String.toList_ofList]
  refine ⟨nofun, nofun, ?_⟩
  rw [integer]
  dsimp only
  rw [htext]
  exact Lexeme.scan_integer hn hrest

theorem stands_mark {c : Char} (hc : c ∈ Lexeme.marks) (hrest : c = '.' → EndsPoint rest) :
    (mark c).StandsBefore rest := by
  have hkind : punctuation c ≠ .whitespace ∧ punctuation c ≠ .newline := by
    simp only [Lexeme.marks, List.mem_cons, List.not_mem_nil, or_false] at hc
    rcases hc with rfl | rfl | rfl | rfl | rfl | rfl | rfl <;> exact ⟨nofun, nofun⟩
  refine ⟨hkind.1, hkind.2, c, [], by simp [mark], ?_⟩
  rw [List.nil_append, Lexeme.scan_mark hc hrest]
  simp [mark]

/-- Each piece stands before those behind it, and the last one before `rest`. -/
def Stand (rest : List Char) : List Piece → Prop
  | [] => True
  | p :: ps => p.StandsBefore (render ps ++ rest) ∧ Stand rest ps

@[simp] theorem stand_append (ps qs : List Piece) :
    Stand rest (ps ++ qs) ↔ Stand (render qs ++ rest) ps ∧ Stand rest qs := by
  induction ps with
  | nil => simp [Stand]
  | cons p ps ih =>
    rw [List.cons_append, Stand, Stand, ih, render_append, List.append_assoc, and_assoc]

/-! ## Reading pieces -/

/-- The token is the one that the piece was to be. -/
def ShownBy (p : Piece) (t : Token) : Prop := t.kind = p.kind ∧ t.text = p.text

theorem exists_scanFrom_cons (offset : Nat) (c : Char) (cs : List Char) :
    ∃ t : Token, t.kind = (Lexeme.scan c cs).kind ∧ t.offset = offset ∧
      t.text = String.ofList (Lexeme.scan c cs).text ∧
      Token.scanFrom offset (c :: cs) =
        t :: Token.scanFrom (offset + Text.byteLength (Lexeme.scan c cs).text) (Lexeme.scan c cs).rest :=
  ⟨_, rfl, rfl, rfl, by rw [Token.scanFrom]⟩

/-- A piece is read back where it stands. -/
theorem exists_shown_text (h : p.StandsBefore rest) (offset : Nat) :
    ∃ t, p.ShownBy t ∧ t.offset = offset ∧
      (Token.scanFrom offset (p.text.toList ++ rest)).filter (!·.isTrivia) =
        t :: (Token.scanFrom (offset + Text.byteLength p.text.toList) rest).filter (!·.isTrivia) := by
  obtain ⟨hspace, hline, c, cs, htext, hscan⟩ := h
  obtain ⟨t, hkind, hoffset, ht, hfirst⟩ := exists_scanFrom_cons offset c (cs ++ rest)
  rw [hscan] at hkind ht hfirst
  have hshown : p.ShownBy t := ⟨hkind, by rw [ht, String.ofList_toList]⟩
  refine ⟨t, hshown, hoffset, ?_⟩
  have htrivia : (!t.isTrivia) = true := by simp [Token.isTrivia, hkind, hspace, hline]
  rw [htext, List.cons_append, hfirst, List.filter_cons, if_pos htrivia, ← htext]

end Piece

end ShaderAssembly
