import ShaderAssembly.Single
/-!
# Numbers in decimal

* `Decimal.ofText?`: reads a sign, digits with a point and an exponent, or the name of an infinity
  or of not-a-number;
* `Single.shortest`: the point of the coarsest decimal grid that reads back as the number;
* `Single.toText`: that point, written with at least one digit after the point where its leading
  digit stands between `10 ^ (-4)` and `10 ^ 15`, and with an exponent elsewhere.
-/

namespace ShaderAssembly

/-! ## Reading -/

/-- A decimal without its sign: `digits * 10 ^ exponent`. -/
structure Decimal where
  digits : Nat
  exponent : Int
deriving DecidableEq

namespace Decimal

/-- The whole number that a run of digits denotes. -/
def ofDigits (cs : List Char) : Nat :=
  cs.foldl (fun n c => 10 * n + (c.toNat - '0'.toNat)) 0

/-- Reads `[+-]digits` to the end of the text. -/
def exponent? (cs : List Char) : Option Int :=
  let (negative, ds) :=
    match cs with
    | '+' :: ds => (false, ds)
    | '-' :: ds => (true, ds)
    | ds => (false, ds)
  if ds.isEmpty || !ds.all Char.isDigit then none
  else some (if negative then -(ofDigits ds : Int) else ofDigits ds)

/-- Reads `digits[.digits][e[+-]digits]`, with a digit on one side of the point at least. -/
def ofText? (cs : List Char) : Option Decimal :=
  let whole := cs.takeWhile Char.isDigit
  let rest := cs.dropWhile Char.isDigit
  let (part, rest) :=
    match rest with
    | '.' :: rest => (rest.takeWhile Char.isDigit, rest.dropWhile Char.isDigit)
    | rest => ([], rest)
  if whole.isEmpty && part.isEmpty then none
  else
    let power : Option Int :=
      match rest with
      | [] => some 0
      | c :: rest => if c = 'e' || c = 'E' then exponent? rest else none
    power.map fun x => ⟨ofDigits (whole ++ part), x - part.length⟩

end Decimal

namespace Single

/-- Reads an optional sign before a decimal, or before `inf`, `infinity` or `nan` in any case. -/
def ofText? (cs : List Char) : Option Single :=
  let (negative, rest) :=
    match cs with
    | '+' :: rest => (false, rest)
    | '-' :: rest => (true, rest)
    | rest => (false, rest)
  let word := String.ofList (rest.map Char.toLower)
  if word = "inf" || word = "infinity" then some (.infinite negative)
  else if word = "nan" then some .nan
  else (Decimal.ofText? rest).map fun d => ofDecimal negative d.digits d.exponent

/-! ## Writing -/

/-- The finite number `significand * 2 ^ exponent` and the ends of the interval of reals that round
to it, all as multiples of `1 / unit`; the ends belong to it for an even significand. -/
structure Rounding where
  low : Nat
  value : Nat
  high : Nat
  unit : Nat
  closed : Bool

/-- The interval around a finite number. Below a power of two the step is half as wide. -/
def rounding (m : Nat) (e : Int) : Rounding :=
  let factor := Nat.pow 2 (e - 2).toNat
  let below := if m = 0x800000 && leastExponent < e then 1 else 2
  { low := (4 * m - below) * factor
    value := 4 * m * factor
    high := (4 * m + 2) * factor
    unit := Nat.pow 2 (2 - e).toNat
    closed := m % 2 = 0 }

/-- Whether `d * 10 ^ p` lies in the interval. -/
def Rounding.holds (r : Rounding) (d : Nat) (p : Int) : Bool :=
  let point := d * Nat.pow 10 p.toNat * r.unit
  let lift := Nat.pow 10 (-p).toNat
  if r.closed then r.low * lift ≤ point && point ≤ r.high * lift
  else r.low * lift < point && point < r.high * lift

/-- The neighbour of the value on the grid of multiples of `10 ^ p` that lies in the interval: the
nearer one of two, the greater one of two that are equally near. -/
def Rounding.nearest? (r : Rounding) (p : Int) : Option Nat :=
  let step := Nat.pow 10 p.toNat * r.unit
  let value := r.value * Nat.pow 10 (-p).toNat
  let d := value / step
  let up := d + 1
  match r.holds d p, r.holds up p with
  | true, true => if value - d * step < up * step - value then some d else some up
  | true, false => some d
  | false, true => some up
  | false, false => none

/-- The first hit on the grids `10 ^ p`, `10 ^ (p - 1)`, …, with its exponent. -/
def Rounding.search (r : Rounding) : Nat → Int → Nat × Int
  | 0, p => (r.value * Nat.pow 10 (-p).toNat / (Nat.pow 10 p.toNat * r.unit), p)
  | n + 1, p =>
    match r.nearest? p with
    | some d => (d, p)
    | none => r.search n (p - 1)

/-- The point `d * 10 ^ p` of the coarsest grid that reads back as the number: nothing above
`10 ^ 39` is finite, and nine digits always suffice. -/
def shortest (m : Nat) (e : Int) : Nat × Int := (rounding m e).search 96 39

/-- A decimal with its leading digit at `10 ^ x`: positional for `x` from `-4` to `15`, with a
digit after the point; otherwise one digit, the others after a point, and the exponent. -/
def decimalText (d : Nat) (p : Int) : String :=
  let digits := Nat.toDigits 10 d
  let x := p + digits.length - 1
  if -4 ≤ x ∧ x ≤ 15 then
    if 0 ≤ p then String.ofList (digits ++ List.replicate p.toNat '0' ++ ['.', '0'])
    else if 0 ≤ x then
      String.ofList (digits.take (x.toNat + 1) ++ ['.'] ++ digits.drop (x.toNat + 1))
    else String.ofList (['0', '.'] ++ List.replicate ((-x).toNat - 1) '0' ++ digits)
  else
    let fraction := if digits.length = 1 then [] else '.' :: digits.drop 1
    String.ofList (digits.take 1 ++ fraction ++ ['e']) ++ toString x

/-- The text of a number: the fewest digits that read back as it. -/
def toText : Single → String
  | .nan => "NaN"
  | .infinite negative => if negative then "-inf" else "inf"
  | .finite negative m e =>
    let text :=
      if m = 0 then "0.0"
      else
        let (d, p) := shortest m e
        decimalText d p
    if negative then "-" ++ text else text

end Single

end ShaderAssembly
