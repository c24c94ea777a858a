import ShaderAssembly.Toml.Key
import ShaderAssembly.Toml.Literal
/-!
# Values

* `Toml.readItems?`: the items of a list, which may spread over lines;
* `Toml.readPairs?`: the keys and values between braces, which stand on one line;
* `Toml.readValue?`: a value of any kind.
-/

namespace ShaderAssembly

namespace Toml

/-- The items up to the bracket that closes a list, each read by `item`. A comma may stand behind
the last one. -/
def readItems? (item : List Char → Option (Node × List Char)) (cs : List Char) :
    Option (List Node × List Char) :=
  match skipLines false cs with
  | ']' :: rest => some ([], rest)
  | start =>
    match item start with
    | none => none
    | some (node, rest) =>
      match skipLines false rest with
      | ']' :: rest => some ([node], rest)
      | ',' :: rest =>
        if rest.length < cs.length then
          (readItems? item rest).map fun (nodes, rest) => (node :: nodes, rest)
        else none
      | _ => none
termination_by cs.length

/-- A key, an equals sign and a value, read by `value`. -/
def readPair? (value : List Char → Option (Node × List Char)) (cs : List Char) :
    Option ((List String × Node) × List Char) := do
  let (key, cs) ← readKey? cs
  match cs with
  | '=' :: cs => do
    let (node, cs) ← value (skipSpace cs)
    return ((key, node), skipSpace cs)
  | _ => none

/-- One key and value, or more with commas between them, up to the brace that closes them. -/
def readPairs? (value : List Char → Option (Node × List Char)) (cs : List Char) :
    Option (List (List String × Node) × List Char) :=
  match readPair? value cs with
  | none => none
  | some (pair, rest) =>
    match rest with
    | '\x7d' :: rest => some ([pair], rest)
    | ',' :: rest =>
      if rest.length < cs.length then
        (readPairs? value rest).map fun (pairs, rest) => (pair :: pairs, rest)
      else none
    | _ => none
termination_by cs.length

/-- The table between braces, opened before the front of a text. -/
def readBraces? (value : List Char → Option (Node × List Char)) (cs : List Char) :
    Option (Node × List Char) :=
  match skipSpace cs with
  | '\x7d' :: rest => some (.table .braces [], rest)
  | start => do
    let (pairs, rest) ← readPairs? value start
    let entries ← pairs.foldlM (fun t (key, node) => Entries.insert? node key t) []
    return (.table .braces entries, rest)

/-- The string, or the value without quotes, at the front of a text. -/
def readScalar? : List Char → Option (Node × List Char)
  | [] => none
  | c :: cs =>
    if c = '"' || c = '\'' then
      (readString? (c :: cs)).map fun (s, rest) => (.scalar (.text s), rest)
    else (readLiteral? (c :: cs)).map fun (v, rest) => (.scalar v, rest)

/-- The value at the front of a text, with at most `depth` lists and tables each within another. -/
def readValue? : Nat → List Char → Option (Node × List Char)
  | 0, cs => readScalar? cs
  | depth + 1, cs =>
    match cs with
    | '[' :: cs => (readItems? (readValue? depth) cs).map fun (nodes, rest) => (.list nodes, rest)
    | '\x7b' :: cs => readBraces? (readValue? depth) cs
    | cs => readScalar? cs

end Toml

end ShaderAssembly
