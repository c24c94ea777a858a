/-!
# Bytes

* `Bytes.word`: a 32-bit word as four bytes, the lowest first;
* `Bytes.take?`, `Bytes.word?`: reads from the front of a byte string;
* `Bytes.ofText`, `Bytes.text?`: texts as UTF-8.
-/

namespace ShaderAssembly

/-- A byte string. -/
abbrev Bytes := List UInt8

namespace Bytes

/-- The word whose bytes are given, the lowest first. -/
def wordOf (a b c d : UInt8) : UInt32 :=
  UInt32.ofNat (a.toNat + 0x100 * b.toNat + 0x10000 * c.toNat + 0x1000000 * d.toNat)

/-- The bytes of a word, the lowest first. -/
def word (n : UInt32) : Bytes :=
  [UInt8.ofNat n.toNat, UInt8.ofNat (n.toNat / 0x100), UInt8.ofNat (n.toNat / 0x10000),
    UInt8.ofNat (n.toNat / 0x1000000)]

/-- The first `n` bytes and the rest, if there are so many. -/
def take? : Nat → Bytes → Option (Bytes × Bytes)
  | 0, bs => some ([], bs)
  | _ + 1, [] => none
  | n + 1, b :: bs => (take? n bs).map fun (front, rest) => (b :: front, rest)

/-- The first word and the rest, if there are four bytes. -/
def word? : Bytes → Option (UInt32 × Bytes)
  | a :: b :: c :: d :: rest => some (wordOf a b c d, rest)
  | _ => none

/-- A text as UTF-8. -/
def ofText (s : String) : Bytes := s.toUTF8.toList

/-- The text whose UTF-8 form the bytes are. -/
def text? (bs : Bytes) : Option String := String.fromUTF8? ⟨bs.toArray⟩

end Bytes

end ShaderAssembly
