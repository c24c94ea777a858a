import ShaderAssembly.Diagnostic
import ShaderAssembly.Text
/-!
# Program headers

A program starts at the first occurrence of its kind's signature, wherever that stands in the text.

* `Header.classify`: the byte offset just past the signature, or why there is none;
* `Header.detectKind`: the kind whose signature comes first.
-/

namespace ShaderAssembly

namespace Header

/-- The words with which every signature begins. -/
def marker : String := "!!ARB"

/-- The byte offset of a kind's signature. -/
def find? (kind : ProgramKind) (source : String) : Option Nat :=
  Text.find? kind.signature.toList source.toList

/-- The byte offset just past the signature of `kind`. Without the signature, a marker tells a
program of some other kind from a text that is no program at all. -/
def classify (source : String) (kind : ProgramKind) : Except TranslationError Nat :=
  match find? kind source with
  | some start => .ok (start + kind.signature.utf8ByteSize)
  | none =>
    if Text.contains marker.toList source.toList then .error (.headerMismatch kind)
    else .error .headerMissing

/-- The kind whose signature appears first. -/
def detectKind (source : String) : Option ProgramKind :=
  match find? .vertex source, find? .fragment source with
  | some v, some f => if f < v then some .fragment else some .vertex
  | some _, none => some .vertex
  | none, some _ => some .fragment
  | none, none => none

end Header

end ShaderAssembly
