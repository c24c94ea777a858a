import ShaderAssembly.Single.Decimal
import ShaderAssembly.Text
import ShaderAssembly.Token
/-!
# Lexing

* `Lexeme.scan`: the first token of a text, and the text behind it;
* `Lexeme.text_append_rest`: a scan loses nothing;
* `Token.scanFrom`: all tokens of a text, end to end, with their byte offsets;
* `Token.ofSource`: the tokens of a program text from a byte offset on.

A number is `digits`, `digits.digits`, `.digits` or `digits.`, each with an optional exponent.
Digits that run on into a word belong to the word (`2D`), and the first point of `..` belongs to no
number.
-/

namespace ShaderAssembly

/-- The first token of a text, and the text behind it. -/
structure Lexeme where
  kind : TokenKind
  text : List Char
  rest : List Char
deriving DecidableEq

/-! ## Character classes -/

/-- Whether the character is a blank wherever it stands. -/
def isBlank (c : Char) : Bool := c == ' ' || c == '\t' || c == '\x0c'

/-- Whether a text starts with a character of a class. -/
def startsWith (p : Char → Bool) : List Char → Bool
  | [] => false
  | c :: _ => p c

/-! ## Runs of characters -/

/-- The longest run of blanks at the start of a text; a carriage return is one unless a line feed
follows. -/
def blanks : List Char → List Char × List Char
  | [] => ([], [])
  | c :: cs =>
    if isBlank c || (c == '\r' && !startsWith (· == '\n') cs) then
      let (run, rest) := blanks cs
      (c :: run, rest)
    else ([], c :: cs)

/-- The rest of the line: everything before a line feed, or before a carriage return and a line
feed. -/
def restOfLine : List Char → List Char × List Char
  | [] => ([], [])
  | c :: cs =>
    if c == '\n' || (c == '\r' && startsWith (· == '\n') cs) then ([], c :: cs)
    else
      let (run, rest) := restOfLine cs
      (c :: run, rest)

/-! ## Parts of a number -/

/-- Whether a point belongs to the number before it, given what follows the point. -/
def pointContinues : List Char → Bool
  | [] => true
  | c :: _ => c != '.' && !isWordStart c

/-- The point and the digits behind it, if the number goes on with a point. -/
def fractionPart : List Char → List Char × List Char
  | [] => ([], [])
  | c :: cs =>
    if c == '.' && pointContinues cs then
      ('.' :: cs.takeWhile Char.isDigit, cs.dropWhile Char.isDigit)
    else ([], c :: cs)

/-- A sign, if the text starts with one. -/
def signPart : List Char → List Char × List Char
  | [] => ([], [])
  | c :: cs => if c == '+' || c == '-' then ([c], cs) else ([], c :: cs)

/-- `e` or `E`, an optional sign and digits, if the text starts with all of these. -/
def exponentPart : List Char → List Char × List Char
  | [] => ([], [])
  | c :: cs =>
    let (sign, ds) := signPart cs
    if (c == 'e' || c == 'E') && startsWith Char.isDigit ds then
      (c :: (sign ++ ds.takeWhile Char.isDigit), ds.dropWhile Char.isDigit)
    else ([], c :: cs)

/-- The class of a number: whole and below `2 ^ 32`, or else a rounded decimal. -/
def numberKind (isWhole : Bool) (text : List Char) : TokenKind :=
  if isWhole && Decimal.ofDigits text < 0x100000000 then .integer (Decimal.ofDigits text)
  else
    match Single.ofText? text with
    | some value => .float value
    | none => .invalid '.'

/-- The number at the start of a text, or the word that its digits run on into. -/
def scanNumber (cs : List Char) : Lexeme :=
  let whole := cs.takeWhile Char.isDigit
  let (fraction, afterFraction) := fractionPart (cs.dropWhile Char.isDigit)
  let (power, rest) := exponentPart afterFraction
  let isWhole := fraction.isEmpty && power.isEmpty
  if isWhole && startsWith isWordStart rest then
    ⟨.identifier, whole ++ rest.takeWhile isWordChar, rest.dropWhile isWordChar⟩
  else
    let text := whole ++ fraction ++ power
    ⟨numberKind isWhole text, text, rest⟩

/-- The class of a character that is a token of its own. -/
def punctuation : Char → TokenKind
  | ';' => .semicolon
  | ',' => .comma
  | '.' => .dot
  | '[' => .leftBracket
  | ']' => .rightBracket
  | '{' => .leftBrace
  | '}' => .rightBrace
  | '=' => .equals
  | '+' => .plus
  | '-' => .minus
  | c => .invalid c

namespace Lexeme

/-- The first token of the text `c :: cs`. -/
def scan (c : Char) (cs : List Char) : Lexeme :=
  if c == '\n' then ⟨.newline, ['\n'], cs⟩
  else if c == '\r' && startsWith (· == '\n') cs then ⟨.newline, ['\r', '\n'], cs.drop 1⟩
  else if isBlank c || c == '\r' then
    let (run, rest) := blanks cs
    ⟨.whitespace, c :: run, rest⟩
  else if c == '#' then
    let (run, rest) := restOfLine cs
    ⟨.whitespace, c :: run, rest⟩
  else if isWordStart c then
    ⟨.identifier, c :: cs.takeWhile isWordChar, cs.dropWhile isWordChar⟩
  else if c.isDigit || (c == '.' && startsWith Char.isDigit cs) then scanNumber (c :: cs)
  else if c == '.' && startsWith (· == '.') cs then ⟨.dotDot, ['.', '.'], cs.drop 1⟩
  else ⟨punctuation c, [c], cs⟩

/-! ## Nothing is lost -/

theorem startsWith_eq (p : Char → Bool) (cs : List Char) (h : startsWith p cs = true) :
    ∃ d ds, cs = d :: ds ∧ p d = true := by
  cases cs with
  | nil => simp [startsWith] at h
  | cons d ds => exact ⟨d, ds, rfl, h⟩

theorem blanks_append (cs : List Char) : (blanks cs).1 ++ (blanks cs).2 = cs := by
  fun_induction blanks cs with
  | case1 => rfl
  | case2 c cs _ run rest heq ih => simp [heq] at ih; simp [ih]
  | case3 => rfl

theorem restOfLine_append (cs : List Char) : (restOfLine cs).1 ++ (restOfLine cs).2 = cs := by
  fun_induction restOfLine cs with
  | case1 => rfl
  | case2 => rfl
  | case3 c cs _ run rest heq ih => simp [heq] at ih; simp [ih]

theorem fractionPart_append (cs : List Char) : (fractionPart cs).1 ++ (fractionPart cs).2 = cs := by
  cases cs with
  | nil => rfl
  | cons c cs =>
    simp only [fractionPart]
    split
    · rename_i h
      simp at h
      simp [h.1, List.takeWhile_append_dropWhile]
    · rfl

theorem signPart_append (cs : List Char) : (signPart cs).1 ++ (signPart cs).2 = cs := by
  cases cs with
  | nil => rfl
  | cons c cs => simp only [signPart]; split <;> rfl

theorem exponentPart_append (cs : List Char) : (exponentPart cs).1 ++ (exponentPart cs).2 = cs := by
  cases cs with
  | nil => rfl
  | cons c cs =>
    simp only [exponentPart]
    split
    · simp [List.append_assoc, List.takeWhile_append_dropWhile, signPart_append]
    · rfl

theorem scanNumber_append (cs : List Char) : (scanNumber cs).text ++ (scanNumber cs).rest = cs := by
  have hf := fractionPart_append (cs.dropWhile Char.isDigit)
  have he := exponentPart_append (fractionPart (cs.dropWhile Char.isDigit)).2
  simp only [scanNumber]
  split
  · rename_i h
    simp only [Bool.and_eq_true, List.isEmpty_iff] at h
    rw [h.1.2] at he
    rw [h.1.1] at hf
    simp only [List.nil_append] at he hf
    simp only [List.append_assoc, List.takeWhile_append_dropWhile]
    rw [he, hf, List.takeWhile_append_dropWhile]
  · simp only [List.append_assoc]
    rw [he, hf, List.takeWhile_append_dropWhile]

/-- A scan loses nothing. -/
theorem text_append_rest (c : Char) (cs : List Char) :
    (scan c cs).text ++ (scan c cs).rest = c :: cs := by
  have pair {p : Char → Bool} (h : startsWith p cs = true) (d : Char)
      (hp : ∀ x, p x = true → x = d) : d :: cs.drop 1 = cs := by
    obtain ⟨x, xs, rfl, hx⟩ := startsWith_eq p cs h
    simp [hp x hx]
  unfold scan
  split
  · simp_all
  split
  · rename_i h
    simp only [Bool.and_eq_true, beq_iff_eq] at h
    simpa [h.1] using pair h.2 '\n' (by simp)
  split
  · simp [blanks_append]
  split
  · simp [restOfLine_append]
  split
  · simp [List.takeWhile_append_dropWhile]
  split
  · exact scanNumber_append (c :: cs)
  split
  · rename_i h
    simp only [Bool.and_eq_true, beq_iff_eq] at h
    simpa [h.1] using pair h.2 '.' (by simp)
  · rfl

theorem isWordStart_of_isDigit {c : Char} (h : c.isDigit = true) : isWordStart c = false := by
  have hd : 48 ≤ c.val.toNat ∧ c.val.toNat ≤ 57 := by
    simpa [Char.isDigit, UInt32.le_iff_toNat_le] using h
  have ne (d : Char) (h : 57 < d.val.toNat ∨ d.val.toNat < 48) : (c == d) = false := by
    simp only [beq_eq_false_iff_ne, ne_eq]
    rintro rfl
    omega
  have alpha : c.isAlpha = false := by
    have hA : 'A'.val.toNat = 65 := rfl
    have ha : 'a'.val.toNat = 97 := rfl
    rw [show c.isAlpha = (decide (c.val ≥ 'A'.val ∧ c.val ≤ 'Z'.val) ||
      (decide (c.val ≥ 'a'.val) && decide (c.val ≤ 'z'.val))) from rfl]
    simp only [UInt32.le_iff_toNat_le, ge_iff_le, Bool.or_eq_false_iff, Bool.and_eq_false_imp,
      decide_eq_true_eq, decide_eq_false_iff_not]
    omega
  simp [isWordStart, alpha, ne '_' (by decide), ne '$' (by decide)]

/-- A number is not empty. -/
theorem scanNumber_ne_nil (c : Char) (cs : List Char)
    (h : (c.isDigit || (c == '.' && startsWith Char.isDigit cs)) = true) :
    (scanNumber (c :: cs)).text ≠ [] := by
  simp only [scanNumber]
  by_cases hc : c.isDigit = true
  · split <;> simp [hc]
  · obtain ⟨rfl, hd⟩ : c = '.' ∧ startsWith Char.isDigit cs = true := by simpa [hc] using h
    obtain ⟨x, xs, rfl, hx⟩ := startsWith_eq _ cs hd
    have hp : pointContinues (x :: xs) = true := by
      have : x ≠ '.' := by rintro rfl; simp at hx
      simp [pointContinues, this, isWordStart_of_isDigit hx]
    have hw : ('.' :: x :: xs).dropWhile Char.isDigit = '.' :: x :: xs := by simp [hc]
    simp [hw, fractionPart, hp]

/-- A token is not empty. -/
theorem text_ne_nil (c : Char) (cs : List Char) : (scan c cs).text ≠ [] := by
  unfold scan
  repeat' split
  all_goals first
    | exact scanNumber_ne_nil c cs ‹_›
    | simp

theorem rest_length_lt (c : Char) (cs : List Char) :
    (scan c cs).rest.length < (c :: cs).length := by
  have h := congrArg List.length (text_append_rest c cs)
  have := List.length_pos_iff.2 (text_ne_nil c cs)
  simp only [List.length_append] at h
  omega

/-! ## Words -/

theorem all_isWordChar_digits (cs : List Char) :
    (cs.takeWhile Char.isDigit).all isWordChar = true := by
  have h : (cs.takeWhile Char.isDigit).all Char.isDigit = true := List.all_takeWhile
  rw [List.all_eq_true] at h ⊢
  exact fun c hc => by simp [isWordChar, h c hc]

theorem numberKind_ne_identifier (isWhole : Bool) (text : List Char) :
    numberKind isWhole text ≠ .identifier := by
  unfold numberKind
  split
  · simp
  · split <;> simp

theorem scanNumber_word (cs : List Char) (h : (scanNumber cs).kind = .identifier) :
    (scanNumber cs).text.all isWordChar = true := by
  simp only [scanNumber] at h ⊢
  split at h
  · rename_i hw
    rw [if_pos hw, List.all_append, all_isWordChar_digits, List.all_takeWhile]
    rfl
  · exact absurd h (numberKind_ne_identifier _ _)

theorem punctuation_ne_identifier (c : Char) : punctuation c ≠ .identifier := by
  unfold punctuation
  split <;> simp

/-- A word holds the characters of words only. -/
theorem scan_word (c : Char) (cs : List Char) (h : (scan c cs).kind = .identifier) :
    (scan c cs).text.all isWordChar = true := by
  unfold scan at h ⊢
  split at h
  · simp at h
  split at h
  · simp at h
  split at h
  · simp at h
  split at h
  · simp at h
  split at h
  · rename_i hw
    simp [*, isWordChar]
  split at h
  · simp only [*]
    exact scanNumber_word _ h
  split at h
  · simp at h
  · exact absurd h (punctuation_ne_identifier c)

end Lexeme

namespace Token

/-- The tokens of a text that starts at byte `offset`, end to end. -/
def scanFrom (offset : Nat) : List Char → List Token
  | [] => []
  | c :: cs =>
    let lexeme := Lexeme.scan c cs
    { kind := lexeme.kind
      offset
      text := String.ofList lexeme.text
      word := by simpa using Lexeme.scan_word c cs } ::
      scanFrom (offset + Text.byteLength lexeme.text) lexeme.rest
termination_by cs => cs.length
decreasing_by exact Lexeme.rest_length_lt c cs

/-- The tokens of a program text from byte `start` on. -/
def ofSource (source : String) (start : Nat) : List Token :=
  let (before, body) := Text.splitBytes start source.toList
  scanFrom (Text.byteLength before) body

end Token

end ShaderAssembly
