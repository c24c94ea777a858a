import Mathlib.Data.List.Basic
import ShaderAssembly.Proofs.Toml.Quoted
import ShaderAssembly.Text
import ShaderAssembly.Toml.Document
/-!
# Values that are read back

* `integer?_toDigits`: whole numbers, from their digits;
* `Scalar.IsStorable`: values whose written form denotes them;
* **`readValue?_print`**: such a value is read back before the end of its line.
-/

namespace ShaderAssembly.Toml

/-! ## Digits -/

section Digits

variable {cs : List Char} (hcs : ∀ c ∈ cs, c.isDigit = true)

theorem digit?_of_isDigit {c : Char} (hc : c.isDigit = true) :
    digit? 10 c = some (c.toNat - '0'.toNat) := by
  have hle : c.toNat ≤ '9'.toNat := by
    simp only [Char.isDigit, Bool.and_eq_true, decide_eq_true_eq] at hc
    exact UInt32.le_iff_toNat_le.1 hc.2
  have hlt : c.toNat - '0'.toNat < 10 := by
    have : '9'.toNat = 57 := rfl
    have : '0'.toNat = 48 := rfl
    omega
  rw [digit?, if_pos hc, Option.filter_some, if_pos (by simpa using hlt)]

include hcs in
theorem foldlM_digits (n : Nat) :
    cs.foldlM (fun n c => (digit? 10 c).map fun d => 10 * n + d) n =
      some (Nat.ofDigitChars 10 cs n) := by
  induction cs generalizing n with
  | nil => rfl
  | cons c cs ih =>
    obtain ⟨hc, htail⟩ := List.forall_mem_cons.1 hcs
    rw [List.foldlM_cons, digit?_of_isDigit hc, Option.map_some, Nat.ofDigitChars_cons]
    exact ih htail _

include hcs in
theorem ungrouped?_of_digits (hne : cs ≠ []) : ungrouped? 10 cs = some cs := by
  have hdigit {c : Char} (hc : c.isDigit = true) : (digit? 10 c).isSome = true := by
    rw [digit?_of_isDigit hc]
    rfl
  fun_induction ungrouped? 10 cs with
  | case1 => exact absurd rfl hne
  | case2 => rfl
  | case3 c h => exact absurd (hdigit (hcs c List.mem_cons_self)) h
  | case4 c d cs h =>
    have hc := hdigit (hcs c List.mem_cons_self)
    rw [Option.isNone_iff_eq_none.1 h] at hc
    cases hc
  | case5 c h cs ih =>
    exact absurd (hcs '_' (List.mem_cons_of_mem _ List.mem_cons_self)) (by decide)
  | case6 c h d cs hd ih =>
    rw [ih (List.forall_mem_cons.1 hcs).2 (List.cons_ne_nil _ _), Option.map_some]

include hcs in
theorem integer?_of_digits :
    integer? cs = (wholeDigits? cs).bind fun ds => (numeral? 10 ds).bind fun n => bounded? n := by
  have hsign : splitSign cs = (false, cs) := by
    unfold splitSign
    split
    · exact absurd (hcs '+' List.mem_cons_self) (by decide)
    · exact absurd (hcs '-' List.mem_cons_self) (by decide)
    · rfl
  have hsecond {c : Char} {ds : List Char} (h : cs = '0' :: c :: ds) : c.isDigit = true :=
    hcs c (h ▸ List.mem_cons_of_mem _ List.mem_cons_self)
  unfold integer?
  split
  · exact absurd (hsecond rfl) (by decide)
  · exact absurd (hsecond rfl) (by decide)
  · exact absurd (hsecond rfl) (by decide)
  · rw [hsign]
    rfl

end Digits

/-- Only zero is written with a zero at the front. -/
theorem head?_toDigits {n : Nat} (hn : n ≠ 0) : (Nat.toDigits 10 n).head? ≠ some '0' := by
  induction n using Nat.strongRecOn with
  | ind n ih =>
    by_cases hlt : n < 10
    · rw [Nat.toDigits_of_lt_base hlt]
      simpa using hn
    · rw [Nat.toDigits_of_base_le (by decide) (Nat.le_of_not_lt hlt),
        List.head?_append_of_ne_nil _ Nat.toDigits_ne_nil]
      exact ih (n / 10) (by omega) (by omega)

theorem integer?_toDigits {n : Nat} (hn : n < 0x8000000000000000) :
    integer? (Nat.toDigits 10 n) = some (n : Int) := by
  have hdigits : ∀ c ∈ Nat.toDigits 10 n, c.isDigit = true :=
    fun c => Nat.isDigit_of_mem_toDigits (by decide) (by decide)
  have hwhole : wholeDigits? (Nat.toDigits 10 n) = some (Nat.toDigits 10 n) := by
    have hzero : ((Nat.toDigits 10 n).head? == some '0' && Nat.toDigits 10 n != ['0']) = false := by
      by_cases h0 : n = 0
      · rw [h0]
        rfl
      · simp [head?_toDigits h0]
    rw [wholeDigits?, hzero, if_neg (by decide), ungrouped?_of_digits hdigits Nat.toDigits_ne_nil]
  have hvalue : numeral? 10 (Nat.toDigits 10 n) = some n := by
    rw [numeral?, foldlM_digits hdigits, Nat.ofDigitChars_ten_toDigits]
  have hbound : bounded? n = some (n : Int) := by
    rw [bounded?, if_pos ⟨by omega, by omega⟩]
  rw [integer?_of_digits hdigits, hwhole, Option.bind_some, hvalue, Option.bind_some, hbound]

/-! ## Values -/

/-- A value that is read back from its written form. A whole number is not negative and has 64 bits
with its sign; no number with a point and no point in time is ever written. -/
def Scalar.IsStorable : Scalar → Prop
  | .text _ => True
  | .integer n => 0 ≤ n ∧ n < 0x8000000000000000
  | .boolean _ => True
  | .float _ => False
  | .moment _ => False

section Values

variable {v : Scalar} {rest : List Char}

theorem readLiteral?_of_word {word : List Char} (hword : word.all isLiteralChar = true)
    (hv : literal? word = some v) :
    readLiteral? (word ++ '\n' :: rest) = some (v, '\n' :: rest) := by
  have hnewline : ∀ c ∈ ('\n' :: rest).head?, isLiteralChar c = false := by
    simp [isLiteralChar, Char.isAlphanum]
  obtain ⟨htake, hdrop⟩ := takeWhile_append_of_all hword hnewline
  rw [readLiteral?, htake, hdrop]
  simp [hv]

theorem literal?_toDigits {n : Nat} (hn : n < 0x8000000000000000) :
    literal? (Nat.toDigits 10 n) = some (.integer n) := by
  have hletter {c : Char} {cs : List Char} (hc : c.isDigit = false) :
      Nat.toDigits 10 n ≠ c :: cs := by
    intro h
    have hdigit : c.isDigit = true :=
      Nat.isDigit_of_mem_toDigits (b := 10) (by decide) (by decide) (h ▸ List.mem_cons_self)
    rw [hc] at hdigit
    cases hdigit
  rw [literal?, if_neg (hletter (by decide)), if_neg (hletter (by decide)), integer?_toDigits hn]

/-- Only brackets and braces open what is no single value. -/
theorem readValue?_eq_readScalar? {c : Char} (hlist : c ≠ '[') (htable : c ≠ '\x7b') (depth : Nat)
    (cs : List Char) : readValue? depth (c :: cs) = readScalar? (c :: cs) := by
  cases depth with
  | zero => rfl
  | succ depth =>
    rw [readValue?]
    · exact fun ds h => hlist (List.cons.inj h).1
    · exact fun ds h => htable (List.cons.inj h).1

theorem readValue?_of_word {c : Char} {word : List Char}
    (hword : (c :: word).all isLiteralChar = true) (hv : literal? (c :: word) = some v)
    (depth : Nat) :
    readValue? depth (c :: word ++ '\n' :: rest) = some (.scalar v, '\n' :: rest) := by
  have hother {d : Char} (hd : isLiteralChar d = false) : c ≠ d := by
    rintro rfl
    rw [List.all_cons, hd] at hword
    cases hword
  rw [List.cons_append, readValue?_eq_readScalar? (hother (by decide)) (hother (by decide)),
    readScalar?, if_neg, ← List.cons_append, readLiteral?_of_word hword hv]
  · rfl
  · simp [hother (d := '"') (by decide), hother (d := '\'') (by decide)]

theorem readValue?_quoted (s : String) (depth : Nat) :
    readValue? depth (quoted s ++ '\n' :: rest) = some (.scalar (.text s), '\n' :: rest) := by
  obtain ⟨mark, cs, hquoted, hmark⟩ := exists_quoted s
  have hread : readString? (quoted s ++ '\n' :: rest) = some (s, '\n' :: rest) :=
    readString?_quoted s (by simp)
  rw [hquoted, List.cons_append] at hread ⊢
  have hother : mark ≠ '[' ∧ mark ≠ '\x7b' := by
    obtain rfl | rfl := hmark <;> decide
  rw [readValue?_eq_readScalar? hother.1 hother.2, readScalar?, if_pos (by simpa using hmark), hread]
  rfl

theorem print_integer (n : Nat) : (Scalar.integer n).print = Nat.toDigits 10 n :=
  (congrArg String.toList Nat.toString_eq_ofList_toDigits).trans String.toList_ofList

theorem exists_print (hv : v.IsStorable) : ∃ c cs, v.print = c :: cs ∧ isSpace c = false := by
  cases v with
  | text s =>
    obtain ⟨mark, cs, hquoted, rfl | rfl⟩ := exists_quoted s
    · exact ⟨_, cs, hquoted, by decide⟩
    · exact ⟨_, cs, hquoted, by decide⟩
  | integer n =>
    obtain ⟨n, rfl⟩ := Int.eq_ofNat_of_zero_le hv.1
    rw [print_integer]
    cases e : Nat.toDigits 10 n with
    | nil => exact absurd e Nat.toDigits_ne_nil
    | cons c cs =>
      have hdigit : c.isDigit = true :=
        Nat.isDigit_of_mem_toDigits (b := 10) (by decide) (by decide) (e ▸ List.mem_cons_self)
      refine ⟨c, cs, rfl, Bool.or_eq_false_iff.2 ⟨?_, ?_⟩⟩
      · exact beq_eq_false_of_class (p := Char.isDigit) (by rw [hdigit]; decide)
      · exact beq_eq_false_of_class (p := Char.isDigit) (by rw [hdigit]; decide)
  | boolean b => cases b <;> exact ⟨_, _, rfl, by decide⟩
  | float => cases hv
  | moment => cases hv

/-- A value is read back before the end of its line. -/
theorem readValue?_print (hv : v.IsStorable) (depth : Nat) (rest : List Char) :
    readValue? depth (v.print ++ '\n' :: rest) = some (.scalar v, '\n' :: rest) := by
  cases v with
  | text s => exact readValue?_quoted s depth
  | integer n =>
    obtain ⟨n, rfl⟩ := Int.eq_ofNat_of_zero_le hv.1
    have hall : (Nat.toDigits 10 n).all isLiteralChar = true := List.all_eq_true.2 fun c hc => by
      simp [isLiteralChar, Char.isAlphanum, Nat.isDigit_of_mem_toDigits (by decide) (by decide) hc]
    have hliteral := literal?_toDigits (n := n) (by have := hv.2; omega)
    rw [print_integer]
    cases e : Nat.toDigits 10 n with
    | nil => exact absurd e Nat.toDigits_ne_nil
    | cons c cs =>
      rw [e] at hall hliteral
      exact readValue?_of_word hall hliteral depth
  | boolean b =>
    cases b <;> exact readValue?_of_word (by decide) rfl depth
  | float => cases hv
  | moment => cases hv

end Values

end ShaderAssembly.Toml
