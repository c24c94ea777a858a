import ShaderAssembly.Single.Decimal
import ShaderAssembly.Toml.Digits
import ShaderAssembly.Toml.Node
/-!
# Values without quotes

* `Toml.integer?`: whole numbers, in base ten with a sign or in a base that they name;
* `Toml.isFloat`: numbers with a point or an exponent, the infinities and not-a-number;
* `Toml.isMoment`: dates, times of day, and both together;
* `Toml.readLiteral?`: the value at the front of a text.
-/

namespace ShaderAssembly

namespace Toml

/-- Whether a number has a minus, and the number without its sign. -/
def splitSign : List Char → Bool × List Char
  | '+' :: cs => (false, cs)
  | '-' :: cs => (true, cs)
  | cs => (false, cs)

/-! ## Whole numbers -/

/-- The digits of a whole number in base ten, which starts with a zero only if it is zero. -/
def wholeDigits? (cs : List Char) : Option (List Char) :=
  if cs.head? == some '0' && cs != ['0'] then none else ungrouped? 10 cs

/-- A number, if 64 bits hold it. -/
def bounded? (n : Int) : Option Int :=
  if -0x8000000000000000 ≤ n ∧ n < 0x8000000000000000 then some n else none

/-- The number in a base that its first two characters name. -/
def based? (base : Nat) (cs : List Char) : Option Int := do
  bounded? (← numeral? base (← ungrouped? base cs))

/-- The whole number that a text denotes. -/
def integer? : List Char → Option Int
  | '0' :: 'x' :: cs => based? 16 cs
  | '0' :: 'o' :: cs => based? 8 cs
  | '0' :: 'b' :: cs => based? 2 cs
  | cs => do
    let (negative, cs) := splitSign cs
    let n ← numeral? 10 (← wholeDigits? cs)
    bounded? (if negative then -n else n)

/-! ## Numbers with a point or an exponent -/

/-- Whether a decimal is nearer to `2 ^ 1024` than to the greatest number of 53 binary digits below
that. Only a decimal with its leading digit at `10 ^ 308` is compared exactly. -/
def overflows (d : Decimal) : Bool :=
  let places := (Nat.toDigits 10 d.digits).length + d.exponent
  if d.digits = 0 || places < 309 then false
  else if 309 < places then true
  else
    let bound := (Nat.pow 2 54 - 1) * Nat.pow 2 970
    decide (bound * Nat.pow 10 (-d.exponent).toNat ≤ d.digits * Nat.pow 10 d.exponent.toNat)

/-- The digits behind a mark, which the text starts with unless it is empty. -/
def digitsBehind? : List Char → Option (List Char)
  | [] => some []
  | _ :: cs => ungrouped? 10 cs

/-- The exponent behind its letter, which the text starts with unless it is empty. -/
def exponentBehind? : List Char → Option Int
  | [] => some 0
  | _ :: cs => do
    let (negative, cs) := splitSign cs
    let n ← numeral? 10 (← ungrouped? 10 cs)
    return if negative then -n else n

/-- The decimal that a text without a sign denotes, if it has a point or an exponent. -/
def decimal? (cs : List Char) : Option Decimal := do
  let isExponent (c : Char) : Bool := c == 'e' || c == 'E'
  let mantissa := cs.takeWhile fun c => !isExponent c
  let power := cs.dropWhile fun c => !isExponent c
  let point := mantissa.dropWhile (· != '.')
  if point.isEmpty && power.isEmpty then none
  else
    let whole ← wholeDigits? (mantissa.takeWhile (· != '.'))
    let part ← digitsBehind? point
    let x ← exponentBehind? power
    return ⟨Decimal.ofDigits (whole ++ part), x - part.length⟩

/-- Whether a text denotes a number with a point or an exponent. A number too great is refused, and
one too far below zero is not. -/
def isFloat (cs : List Char) : Bool :=
  let (negative, cs) := splitSign cs
  cs == ['i', 'n', 'f'] || cs == ['n', 'a', 'n'] ||
    match decimal? cs with
    | some d => negative || !overflows d
    | none => false

/-! ## Points in time -/

/-- The number of exactly `n` digits at the front of a text, if it lies between two bounds. -/
def field? (n low high : Nat) (cs : List Char) : Option (Nat × List Char) :=
  let digits := cs.take n
  if digits.length = n && digits.all Char.isDigit then
    let value := Decimal.ofDigits digits
    if low ≤ value ∧ value ≤ high then some (value, cs.drop n) else none
  else none

/-- The text behind a character that it has to start with. -/
def expect? (c : Char) : List Char → Option (List Char)
  | [] => none
  | d :: cs => if d = c then some cs else none

/-- The length of a month. -/
def daysIn (year month : Nat) : Nat :=
  if month = 2 then if year % 4 = 0 ∧ (year % 100 ≠ 0 ∨ year % 400 = 0) then 29 else 28
  else if month = 4 ∨ month = 6 ∨ month = 9 ∨ month = 11 then 30
  else 31

/-- The text behind a date. -/
def date? (cs : List Char) : Option (List Char) := do
  let (year, cs) ← field? 4 0 9999 cs
  let (month, cs) ← field? 2 1 12 (← expect? '-' cs)
  let (_, cs) ← field? 2 1 (daysIn year month) (← expect? '-' cs)
  return cs

/-- The text behind an hour and a minute. -/
def minute? (cs : List Char) : Option (List Char) := do
  let (_, cs) ← field? 2 0 23 cs
  let (_, cs) ← field? 2 0 59 (← expect? ':' cs)
  return cs

/-- The text behind a time of day. A minute may have a second more. -/
def time? (cs : List Char) : Option (List Char) := do
  let (_, cs) ← field? 2 0 60 (← expect? ':' (← minute? cs))
  match cs with
  | '.' :: part => if part.head?.any Char.isDigit then some (part.dropWhile Char.isDigit) else none
  | cs => some cs

/-- The text behind the difference from universal time. -/
def offset? : List Char → Option (List Char)
  | [] => none
  | c :: cs =>
    if c = 'Z' || c = 'z' then some cs else if c = '+' || c = '-' then minute? cs else none

/-- Whether a text denotes a point in time: a date, a time of day, or both with a `T` or a blank
between them; the last of these may say how far it is from universal time. -/
def isMoment (cs : List Char) : Bool :=
  match date? cs with
  | none => time? cs == some []
  | some [] => true
  | some (c :: cs) =>
    (c == 'T' || c == 't' || c == ' ') &&
      match time? cs with
      | none => false
      | some [] => true
      | some cs => offset? cs == some []

/-! ## All of them -/

/-- The value that a text denotes. -/
def literal? (cs : List Char) : Option Scalar :=
  if cs = ['t', 'r', 'u', 'e'] then some (.boolean true)
  else if cs = ['f', 'a', 'l', 's', 'e'] then some (.boolean false)
  else
    match integer? cs with
    | some n => some (.integer n)
    | none =>
      if isFloat cs then some (.float (String.ofList cs))
      else if isMoment cs then some (.moment (String.ofList cs))
      else none

/-- Whether a value without quotes may hold the character. -/
def isLiteralChar (c : Char) : Bool :=
  c.isAlphanum || c == '_' || c == '+' || c == '-' || c == '.' || c == ':'

/-- The value without quotes at the front of a text. A date goes on behind a blank if a digit
follows. -/
def readLiteral? (cs : List Char) : Option (Scalar × List Char) :=
  let word := cs.takeWhile isLiteralChar
  let rest := cs.dropWhile isLiteralChar
  match rest with
  | ' ' :: more =>
    if date? word == some [] && more.head?.any Char.isDigit then
      (literal? (word ++ ' ' :: more.takeWhile isLiteralChar)).map fun v =>
        (v, more.dropWhile isLiteralChar)
    else (literal? word).map fun v => (v, rest)
  | _ => (literal? word).map fun v => (v, rest)

end Toml

end ShaderAssembly
