import ShaderAssembly.Proofs.Lexing.Tiling
/-!
# Numbers are read without failure

A number is first cut out of the text, by its digits, its fraction and its exponent, and then read.
Reading could fail; what is cut out is a literal, so that it never does.

* `Single.IsNumeral`: the texts that denote a number;
* **`Single.isSome_ofText?_iff`**: those are the texts that are read;
* `numeral`: what is cut out where a number starts;
* `Lexeme.scanNumber_cases`: a literal is cut out, which is read, or digits that run on into a word;
* `Lexeme.Shape.point_cases`: the tokens in which there is a point;
* **`Lexer.numbers_read`**: no number fails to be read, and a point outside numbers and comments is a
  token of its own or with another one.
-/

namespace ShaderAssembly

/-! ## Texts that denote a number -/

/-- A literal, or the name of an infinity or of not-a-number in letters of any case, behind a sign or
none. -/
def Single.IsNumeral (text : List Char) : Prop :=
  ∃ (sign : Option Char) (body : List Char), text = sign.toList ++ body ∧
    (∀ c ∈ sign, c = '+' ∨ c = '-') ∧
    ((∃ ℓ : Literal, body = ℓ.text) ∨
      String.ofList (body.map Char.toLower) ∈ ["inf", "infinity", "nan"])

namespace Decimal

theorem exists_exponent_of_exponent? {letter : Char} (hletter : letter = 'e' ∨ letter = 'E')
    {cs : List Char} (h : (exponent? cs).isSome = true) :
    ∃ e : Exponent, letter :: cs = e.text := by
  obtain ⟨sign, hsign, hsigns⟩ := exists_sign_of_signPart cs
  have hdigits : IsDigits (signPart cs).2 := by
    rw [exponent?_eq_ite] at h
    split at h
    · cases h
    · rename_i hds
      simpa [IsDigits] using hds
  refine ⟨⟨letter, sign, _, hletter, hsigns, hdigits⟩, ?_⟩
  rw [Exponent.text, ← hsign, Lexeme.signPart_append]

theorem exists_option_of_power {cs : List Char}
    (h : (match cs with
      | [] => some (0 : Int)
      | c :: rest => if c = 'e' || c = 'E' then exponent? rest else none).isSome = true) :
    ∃ exponent : Option Exponent, cs = exponent.elim [] Exponent.text := by
  cases cs with
  | nil => exact ⟨none, rfl⟩
  | cons c rest =>
    dsimp only at h
    split at h
    · rename_i hletter
      obtain ⟨e, he⟩ := exists_exponent_of_exponent? (by simpa using hletter) h
      exact ⟨some e, he⟩
    · cases h

theorem exists_literal_of_ofText? {cs : List Char} (h : (ofText? cs).isSome = true) :
    ∃ ℓ : Literal, cs = ℓ.text := by
  have hsplit := List.takeWhile_append_dropWhile (p := Char.isDigit) (l := cs)
  have hwhole : (cs.takeWhile Char.isDigit).all Char.isDigit = true := List.all_takeWhile
  -- the digits on both sides of the point, if it is known which of them are there
  have hdigits {part : List Char} (hpart : part.all Char.isDigit = true)
      (hne : ¬ ((cs.takeWhile Char.isDigit).isEmpty && part.isEmpty) = true) :
      IsDigits (cs.takeWhile Char.isDigit ++ part) :=
    ⟨by simpa using hne, by rw [List.all_append, hwhole, hpart]; rfl⟩
  unfold ofText? at h
  dsimp only at h
  split at h
  all_goals
    split at h
    · cases h
    rename_i hne
    rw [Option.isSome_map] at h
    obtain ⟨exponent, hexponent⟩ := exists_option_of_power h
  · rename_i rest hpoint
    refine ⟨⟨_, some (rest.takeWhile Char.isDigit), exponent, hdigits List.all_takeWhile hne⟩, ?_⟩
    rw [Literal.text, Literal.exponentText, ← hexponent, Literal.fractionText, Option.elim_some,
      List.append_assoc, List.cons_append, List.takeWhile_append_dropWhile, ← hpoint, hsplit]
  · refine ⟨⟨_, none, exponent, hdigits rfl hne⟩, ?_⟩
    rw [Literal.text, Literal.exponentText, ← hexponent, Literal.fractionText, Option.elim_none,
      List.append_nil, hsplit]

end Decimal

theorem head_ne_of_lower {body : List Char}
    (h : String.ofList (body.map Char.toLower) ∈ ["inf", "infinity", "nan"]) :
    ∀ c ∈ body.head?, c ≠ '+' ∧ c ≠ '-' := by
  cases body with
  | nil => simp
  | cons c cs =>
    have hhead : c.toLower = 'i' ∨ c.toLower = 'n' := by
      simp only [List.mem_cons, List.not_mem_nil, or_false] at h
      obtain h | h | h := h
      all_goals
        have hhead := congrArg (fun s : String => s.toList.head?) h
        simp only [String.toList_ofList, List.map_cons, List.head?_cons] at hhead
      · exact .inl (Option.some.inj hhead)
      · exact .inl (Option.some.inj hhead)
      · exact .inr (Option.some.inj hhead)
    rintro _ ⟨⟩
    constructor <;> (rintro rfl; revert hhead; decide)

/-- **The texts that are read as numbers are those that denote one.** -/
theorem Single.isSome_ofText?_iff (text : List Char) :
    (ofText? text).isSome = true ↔ IsNumeral text := by
  constructor
  · intro h
    obtain ⟨sign, hsign, hsigns⟩ := exists_sign_of_signPart text
    refine ⟨sign, (signPart text).2, by rw [← hsign, Lexeme.signPart_append], hsigns, ?_⟩
    rw [ofText?_eq_ite] at h
    split at h
    · rename_i hinfinite
      rw [Bool.or_eq_true, decide_eq_true_eq, decide_eq_true_eq] at hinfinite
      exact .inr (by simpa using hinfinite.imp_right Or.inl)
    split at h
    · rename_i hnan
      exact .inr (by simp [hnan])
    · rw [Option.isSome_map] at h
      exact .inl (Decimal.exists_literal_of_ofText? h)
  · rintro ⟨sign, body, rfl, hsigns, hbody⟩
    have hhead : ∀ c ∈ body.head?, c ≠ '+' ∧ c ≠ '-' := by
      obtain ⟨ℓ, rfl⟩ | hname := hbody
      · exact ℓ.head_text_ne_sign
      · exact head_ne_of_lower hname
    rw [ofText?_eq_ite, signPart_append_of hsigns hhead]
    split
    · rfl
    split
    · rfl
    rename_i hinfinite hnan
    obtain ⟨ℓ, rfl⟩ | hname := hbody
    · rw [ℓ.decimal_ofText?_text]
      rfl
    · rw [Bool.or_eq_true, decide_eq_true_eq, decide_eq_true_eq] at hinfinite
      simp only [List.mem_cons, List.not_mem_nil, or_false, ← or_assoc] at hname
      exact absurd hname (not_or.2 ⟨hinfinite, hnan⟩)

/-! ## What is cut out -/

/-- Whether a number starts here: with a digit, or with a point and a digit. -/
def opensNumber : List Char → Bool
  | [] => false
  | c :: cs => c.isDigit || (c == '.' && startsWith Char.isDigit cs)

/-- The digits, the fraction and the exponent at the start of a text. -/
def numeral (cs : List Char) : List Char :=
  let (fraction, afterFraction) := fractionPart (cs.dropWhile Char.isDigit)
  cs.takeWhile Char.isDigit ++ fraction ++ (exponentPart afterFraction).1

theorem exists_numeral_append (cs : List Char) : ∃ rest, cs = numeral cs ++ rest := by
  refine ⟨(exponentPart (fractionPart (cs.dropWhile Char.isDigit)).2).2, ?_⟩
  rw [numeral, List.append_assoc, Lexeme.exponentPart_append, List.append_assoc,
    Lexeme.fractionPart_append, List.takeWhile_append_dropWhile]

theorem numeral_octets (cs : List Char) : numeral (Text.octets cs) = numeral cs := by
  obtain ⟨htake, hdrop⟩ := Text.takeWhile_octets Text.isAscii_isDigit cs
  simp only [numeral, htake, hdrop, fractionPart_octets, exponentPart_octets]

theorem byteLength_numeral (cs : List Char) : Text.byteLength (numeral cs) = (numeral cs).length := by
  rw [numeral, Text.byteLength_append, Text.byteLength_append,
    Lexer.byteLength_takeWhile Text.isAscii_isDigit, Lexer.byteLength_fractionPart,
    Lexer.byteLength_exponentPart, List.length_append, List.length_append]

namespace Lexeme

/-- A literal is cut out, and it is read, or it is digits that run on into a word. -/
theorem scanNumber_cases {c : Char} {cs : List Char}
    (hc : c.isDigit = true ∨ c = '.' ∧ startsWith Char.isDigit cs = true) :
    ∃ ℓ : Literal, numeral (c :: cs) = ℓ.text ∧
      ((scanNumber (c :: cs)).kind = ℓ.kind ∧ (scanNumber (c :: cs)).text = ℓ.text ∨
        ℓ.IsWhole ∧ (scanNumber (c :: cs)).kind = .identifier ∧
          ∃ d word, isWordStart d = true ∧ (scanNumber (c :: cs)).text = ℓ.text ++ d :: word) := by
  obtain ⟨ℓ, -, hwhole, hfraction, hexponent⟩ := exists_literal_of_parts hc
  have htext : numeral (c :: cs) = ℓ.text := by
    rw [Literal.text, hwhole, hfraction, hexponent]
    rfl
  refine ⟨ℓ, htext, ?_⟩
  have hkind := ℓ.numberKind_text
  rw [← htext] at hkind ⊢
  rw [hfraction, hexponent] at hkind
  simp only [scanNumber]
  split
  · rename_i hword
    simp only [Bool.and_eq_true, List.isEmpty_iff] at hword
    obtain ⟨⟨hnone, hnone'⟩, hstart⟩ := hword
    obtain ⟨d, ds, hrest, hd⟩ := startsWith_eq _ _ hstart
    refine .inr ⟨ℓ.isWhole_iff.2 ⟨hfraction.trans hnone, hexponent.trans hnone'⟩, rfl, d,
      ds.takeWhile isWordChar, hd, ?_⟩
    have hchar : isWordChar d = true := by simp [isWordChar, hd]
    rw [hrest, List.takeWhile_cons_of_pos hchar, htext, Literal.text, hwhole, hfraction, hexponent,
      hnone, hnone', List.append_nil, List.append_nil]
  · exact .inl ⟨hkind, rfl⟩

/-! ## Points -/

theorem not_mem_of_blanks {run rest : List Char} (h : Blanks run rest) : '.' ∉ run := by
  induction run with
  | nil => exact List.not_mem_nil
  | cons c run ih =>
    have hc : '.' ≠ c := by
      rintro rfl
      simpa using h.1
    exact fun hmem => (List.mem_cons.1 hmem).elim hc (ih h.2)

theorem not_mem_of_all {p : Char → Bool} {cs : List Char} (hp : p '.' = false)
    (h : cs.all p = true) : '.' ∉ cs := by
  intro hmem
  have hpoint := List.all_eq_true.1 h '.' hmem
  rw [hp] at hpoint
  cases hpoint

theorem kind_eq_float_of_mem {ℓ : Literal} (h : '.' ∈ ℓ.text) : ℓ.kind = .float ℓ.single := by
  refine if_neg fun hwhole => ?_
  obtain ⟨htext, hdigits⟩ := text_of_isWhole hwhole.1
  rw [htext] at h
  exact not_mem_of_all (p := Char.isDigit) rfl hdigits.2 h

/-- A point is part of a comment, of a number or of two points, or a token of its own. -/
theorem Shape.point_cases {kind : TokenKind} {text rest : List Char} (h : Shape kind text rest)
    (hpoint : '.' ∈ text) :
    (kind = .whitespace ∧ ∃ run, text = '#' :: run) ∨
      (∃ ℓ : Literal, kind = .float ℓ.single ∧ text = ℓ.text) ∨
      kind = .dot ∧ text = ['.'] ∨ kind = .dotDot ∧ text = ['.', '.'] := by
  cases h with
  | newline | returnNewline => simp at hpoint
  | blanks hrun => exact absurd hpoint (not_mem_of_blanks hrun)
  | comment => exact .inl ⟨rfl, _, rfl⟩
  | @word c cs _ hc hcs =>
    have hall : (c :: cs).all isWordChar = true := by simp [isWordChar, hc, hcs]
    exact absurd hpoint (not_mem_of_all rfl hall)
  | @digitsWord whole c cs _ hwhole hc hcs =>
    have hall : (c :: cs).all isWordChar = true := by simp [isWordChar, hc, hcs]
    obtain hpoint | hpoint := List.mem_append.1 hpoint
    · exact absurd hpoint (not_mem_of_all rfl hwhole.2)
    · exact absurd hpoint (not_mem_of_all rfl hall)
  | @number ℓ => exact .inr (.inl ⟨ℓ, kind_eq_float_of_mem hpoint, rfl⟩)
  | dotDot => exact .inr (.inr (.inr ⟨rfl, rfl⟩))
  | @mark c =>
    obtain rfl := List.mem_singleton.1 hpoint
    exact .inr (.inr (.inl ⟨rfl, rfl⟩))

theorem Shape.ne_invalid {kind : TokenKind} {text rest : List Char} (h : Shape kind text rest) :
    kind ≠ .invalid '.' := by
  intro hkind
  have htext := (h.invalid '.' hkind).1
  obtain ⟨hblank, -⟩ | ⟨ℓ, hfloat, -⟩ | ⟨hdot, -⟩ | ⟨hdots, -⟩ :=
    h.point_cases (htext ▸ List.mem_singleton_self '.')
  · exact nomatch hkind.symm.trans hblank
  · exact nomatch hkind.symm.trans hfloat
  · exact nomatch hkind.symm.trans hdot
  · exact nomatch hkind.symm.trans hdots

end Lexeme

/-! ## Every number of a text -/

/-- Where a number starts, a literal is cut out of the text and read, or it is digits that run on into a
word. -/
theorem Lexer.Between.number_cases {l : Lexer} {before body : List Char} (h : l.Between before body)
    (hopens : opensNumber body = true) :
    ∃ ℓ : Literal, l.token = l.number ∧
      Text.slice? l.position (l.position + (numeral l.ahead).length) l.source.toList = some ℓ.text ∧
      (l.number = some (ℓ.kind, ℓ.text.length) ∨
        ℓ.IsWhole ∧ ∃ n, l.number = some (.identifier, ℓ.text.length + n)) := by
  cases body with
  | nil => cases hopens
  | cons c cs =>
    have hc : c.isDigit = true ∨ c = '.' ∧ startsWith Char.isDigit cs = true := by
      simpa [opensNumber] using hopens
    have htoken : l.token = l.number := by
      rw [h.token_eq, h.number_eq]
      dsimp only
      rw [Lexeme.scan_number hc]
    obtain ⟨ℓ, hnumeral, hcases⟩ := Lexeme.scanNumber_cases hc
    have hlength : Text.byteLength ℓ.text = ℓ.text.length := by
      rw [← hnumeral, byteLength_numeral]
    refine ⟨ℓ, htoken, ?_, ?_⟩
    · obtain ⟨rest, hrest⟩ := exists_numeral_append (c :: cs)
      rw [h.ahead_eq, numeral_octets, hnumeral, ← hlength, h.source, h.position, hrest, hnumeral]
      exact Text.slice?_append before ℓ.text rest
    · rw [h.number_eq]
      obtain ⟨hkind, htext⟩ | ⟨hwhole, hkind, d, word, -, htext⟩ := hcases
      · exact .inl (by rw [hkind, htext, hlength])
      · exact .inr ⟨hwhole, Text.byteLength (d :: word), by
          rw [hkind, htext, Text.byteLength_append, hlength]⟩

/-- **No number fails to be read.** Wherever a number starts in a text, what is cut out by its digits,
its fraction and its exponent is a literal. It is not empty, and all literals are among the texts that
are read as numbers. So there is a number, if the digits do not run on into a word. No token is a point
that could not be read, and a point is part of a comment or of a number, or it is a token of its own or
with another one. -/
theorem Lexer.numbers_read (before body : String) :
    let source := before ++ body
    let l := ofSource source before.utf8ByteSize
    (∀ text, (Single.ofText? text).isSome = true ↔ Single.IsNumeral text) ∧
    (opensNumber body.toList = true → ∃ ℓ : Literal, l.token = l.number ∧
      Text.slice? l.position (l.position + (numeral l.ahead).length) source.toList = some ℓ.text ∧
      ℓ.text ≠ [] ∧ Single.ofText? ℓ.text = some ℓ.single ∧
      (l.number = some (ℓ.kind, ℓ.text.length) ∨
        ℓ.IsWhole ∧ ∃ n, l.number = some (.identifier, ℓ.text.length + n))) ∧
    ∀ t ∈ Token.ofSource source before.utf8ByteSize, t.kind ≠ .invalid '.' ∧
      ('.' ∈ t.text.toList →
        (t.kind = .whitespace ∧ ∃ run, t.text.toList = '#' :: run) ∨
        (∃ ℓ : Literal, t.kind = .float ℓ.single ∧ t.text.toList = ℓ.text) ∨
        t.kind = .dot ∧ t.text = "." ∨ t.kind = .dotDot ∧ t.text = "..") := by
  intro source l
  refine ⟨Single.isSome_ofText?_iff, fun hopens => ?_, fun t ht => ?_⟩
  · have hposition : l.position = before.utf8ByteSize :=
      Nat.min_eq_left (by rw [String.utf8ByteSize_append]; exact Nat.le_add_right _ _)
    have hbetween : l.Between before.toList body.toList :=
      ⟨String.toList_append, by rw [hposition, Text.byteLength_toList]⟩
    obtain ⟨ℓ, htoken, hslice, hnumber⟩ := hbetween.number_cases hopens
    obtain ⟨c, cs, hcons, -⟩ := ℓ.exists_cons
    exact ⟨ℓ, htoken, hslice, by rw [hcons]; exact List.cons_ne_nil _ _, ℓ.ofText?_text, hnumber⟩
  · obtain ⟨_, c, cs, -, -, hkind, htext⟩ := Token.exists_scan_of_mem_ofSource ht
    have hshape := Lexeme.shape_scan c cs
    rw [hkind, htext] at hshape
    refine ⟨hshape.ne_invalid, fun hpoint => ?_⟩
    obtain hcomment | hnumber | ⟨hdot, htext⟩ | ⟨hdots, htext⟩ := hshape.point_cases hpoint
    · exact .inl hcomment
    · exact .inr (.inl hnumber)
    · exact .inr (.inr (.inl ⟨hdot, String.toList_inj.1 htext⟩))
    · exact .inr (.inr (.inr ⟨hdots, String.toList_inj.1 htext⟩))

/-- A number behind a longer character, and two points, a number and a word behind it. -/
theorem Lexer.numbers_read_crowded :
    let source := "é" ++ ".5e-3..7E+x"
    let l := ofSource source 2
    let points : Token := { kind := .dotDot, offset := 7, text := ".." }
    opensNumber ".5e-3..7E+x".toList = true ∧
      (∃ ℓ : Literal, l.token = l.number ∧ numeral l.ahead = ".5e-3".toList ∧
        Text.slice? 2 7 source.toList = some ℓ.text ∧ Single.ofText? ℓ.text = some ℓ.single) ∧
      points ∈ Token.ofSource source 2 ∧ '.' ∈ points.text.toList ∧ points.kind ≠ .invalid '.' := by
  intro source l points
  obtain ⟨-, hnumber, htokens⟩ := numbers_read "é" ".5e-3..7E+x"
  have hopens : opensNumber ".5e-3..7E+x".toList = true := by decide +kernel
  have hnumeral : numeral l.ahead = ".5e-3".toList := by decide +kernel
  have hpoints : points ∈ Token.ofSource source 2 := by decide +kernel
  obtain ⟨ℓ, htoken, hslice, -, hread, -⟩ := hnumber hopens
  refine ⟨hopens, ⟨ℓ, htoken, hnumeral, ?_, hread⟩, hpoints, by decide, (htokens points hpoints).1⟩
  have hlength : l.position + (numeral l.ahead).length = 7 := by rw [hnumeral]; decide +kernel
  exact hlength ▸ hslice

end ShaderAssembly
