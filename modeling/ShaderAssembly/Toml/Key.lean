import ShaderAssembly.Toml.Quoted
/-!
# Keys

* `Toml.readName?`: a name, bare or between quotes;
* `Toml.readKey?`: names with points between them.
-/

namespace ShaderAssembly

namespace Toml

/-- Whether a bare name may hold the character. -/
def isNameChar (c : Char) : Bool := c.isAlphanum || c == '_' || c == '-'

/-- The name at the front of a text. -/
def readName? (cs : List Char) : Option (String × List Char) :=
  let name := cs.takeWhile isNameChar
  if name.isEmpty then readLine? cs else some (String.ofList name, cs.dropWhile isNameChar)

/-- At most `limit` names at the front of a text, with points between them and space around each. -/
def readNames? : Nat → List Char → Option (List String × List Char)
  | 0, _ => none
  | limit + 1, cs => do
    let (name, cs) ← readName? (skipSpace cs)
    match skipSpace cs with
    | '.' :: cs => do
      let (names, cs) ← readNames? limit cs
      return (name :: names, cs)
    | cs => return ([name], cs)

/-- The greatest number of names in a key, and of values each within another. -/
def greatestDepth : Nat := 79

/-- The key at the front of a text. -/
def readKey? (cs : List Char) : Option (List String × List Char) := readNames? greatestDepth cs

end Toml

end ShaderAssembly
