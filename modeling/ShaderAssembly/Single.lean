/-!
# Single-precision numbers

The numbers of a program are binary32: a significand below `2 ^ 24` times a power of two no
smaller than `2 ^ (-149)`, both infinities, and one not-a-number.

* `Single`: the numbers;
* `Single.ofQuotient`: a quotient of naturals, rounded to the nearest number, ties to the even
  significand;
* `Single.ofNat`, `Single.ofDecimal`: whole numbers and decimals, rounded once.
-/

namespace ShaderAssembly

/-- A binary32 number. A finite one is `significand * 2 ^ exponent`, with the significand as large
as it can be for an exponent of at least `-149`. -/
inductive Single where
  | nan
  | infinite (negative : Bool)
  | finite (negative : Bool) (significand : Nat) (exponent : Int)
deriving DecidableEq, Inhabited

namespace Single

/-- The least exponent of a finite number. -/
def leastExponent : Int := -149

/-- The greatest exponent of a finite number. -/
def greatestExponent : Int := 104

/-- The number zero, with a sign. -/
def zero (negative : Bool) : Single := .finite negative 0 leastExponent

/-- Neither infinite nor not-a-number. -/
def isFinite : Single → Bool
  | .finite _ _ _ => true
  | _ => false

/-- The number with the other sign. -/
def negate : Single → Single
  | .nan => .nan
  | .infinite negative => .infinite !negative
  | .finite negative m e => .finite (!negative) m e

/-- `n * 2 ^ e / d` as a numerator and a denominator. -/
def scale (n d : Nat) (e : Int) : Nat × Nat :=
  if 0 ≤ e then (n * Nat.pow 2 e.toNat, d) else (n, d * Nat.pow 2 (-e).toNat)

/-- The whole number nearest to `n / d`, the even one of two. -/
def roundQuotient (n d : Nat) : Nat :=
  let q := n / d
  let r := n % d
  if 2 * r < d then q
  else if d < 2 * r then q + 1
  else if q % 2 = 0 then q else q + 1

/-- The exponent of the greatest power of two that is at most `n / d`. -/
def binade (n d : Nat) : Int :=
  let k : Int := (n.log2 : Int) - (d.log2 : Int)
  let (n', d') := scale n d (-k)
  if d' ≤ n' then k else k - 1

/-- The number nearest to `n / d`, ties to the even significand; infinite when it lies half a step
or more above the greatest finite number. -/
def ofQuotient (negative : Bool) (n d : Nat) : Single :=
  if n = 0 then zero negative
  else
    let e := max leastExponent (binade n d - 23)
    let (n', d') := scale n d (-e)
    let m := roundQuotient n' d'
    let (m, e) := if m = 0x1000000 then (0x800000, e + 1) else (m, e)
    if greatestExponent < e then .infinite negative else .finite negative m e

/-- A whole number, rounded. -/
def ofNat (n : Nat) : Single := ofQuotient false n 1

/-- The decimal `digits * 10 ^ exponent`, rounded. A decimal of at least `10 ^ 60` is infinite and
one below `10 ^ (-59)` is zero, so that no huge power is ever formed. -/
def ofDecimal (negative : Bool) (digits : Nat) (exponent : Int) : Single :=
  if digits = 0 then zero negative
  else if 60 < exponent then .infinite negative
  else if exponent < -(digits.log2 + 60 : Int) then zero negative
  else if 0 ≤ exponent then ofQuotient negative (digits * Nat.pow 10 exponent.toNat) 1
  else ofQuotient negative digits (Nat.pow 10 (-exponent).toNat)

/-- The number one. -/
def one : Single := ofNat 1

end Single

end ShaderAssembly
