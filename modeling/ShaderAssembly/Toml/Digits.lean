/-!
# Digits

* `Toml.numeral?`: the number that digits denote in a base;
* `Toml.ungrouped?`: digits without the underscores between them.
-/

namespace ShaderAssembly

namespace Toml

/-- The value of a digit in a base. -/
def digit? (base : Nat) (c : Char) : Option Nat :=
  let value :=
    if c.isDigit then some (c.toNat - '0'.toNat)
    else if 'a' ≤ c ∧ c ≤ 'f' then some (c.toNat - 'a'.toNat + 10)
    else if 'A' ≤ c ∧ c ≤ 'F' then some (c.toNat - 'A'.toNat + 10)
    else none
  value.filter (· < base)

/-- The number that digits denote. -/
def numeral? (base : Nat) (cs : List Char) : Option Nat :=
  cs.foldlM (fun n c => (digit? base c).map fun d => base * n + d) 0

/-- The digits of a text in which an underscore may stand between two of them. -/
def ungrouped? (base : Nat) : List Char → Option (List Char)
  | [] => none
  | [c] => if (digit? base c).isSome then some [c] else none
  | c :: d :: cs =>
    if (digit? base c).isNone then none
    else
      match d, cs with
      | '_', cs => (ungrouped? base cs).map fun cs => c :: cs
      | d, cs => (ungrouped? base (d :: cs)).map fun cs => c :: cs

end Toml

end ShaderAssembly
