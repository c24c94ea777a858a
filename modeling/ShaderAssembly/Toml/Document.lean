import ShaderAssembly.Toml.Value
/-!
# Documents

* `Toml.DocumentReader.readLine?`: what one line adds to a document;
* `Toml.parse?`: the document that a text denotes;
* `Toml.Section`, `Toml.print`: tables under headers, and their text.
-/

namespace ShaderAssembly

namespace Toml

/-! ## Reading -/

/-- A document that is being read, with the path of the table that lines add to. -/
structure DocumentReader where
  root : Entries := []
  place : List String := []

namespace DocumentReader

/-- The document after a header, by which `opened` makes the table that the key names. -/
def enter? (d : DocumentReader) (opened : String → Entries → Option Entries) (key : List String) :
    Option DocumentReader := do
  let name ← key.getLast?
  return { root := ← Entries.changeAt? (opened name) key.dropLast d.root, place := key }

/-- The document with a value under a key. -/
def insert? (d : DocumentReader) (key : List String) (node : Node) : Option DocumentReader := do
  return { d with root := ← Entries.changeAt? (Entries.insert? node key) d.place d.root }

/-- The document after what one line says, and the text behind that. A line may say nothing. -/
def readEntry? (d : DocumentReader) (cs : List Char) : Option (DocumentReader × List Char) :=
  match cs with
  | [] => some (d, cs)
  | '#' :: _ => some (d, cs)
  | '\n' :: _ => some (d, cs)
  | '\r' :: _ => some (d, cs)
  | '[' :: '[' :: cs => do
    let (key, cs) ← readKey? cs
    match cs with
    | ']' :: ']' :: cs => return (← d.enter? Entries.openItem? key, cs)
    | _ => none
  | '[' :: cs => do
    let (key, cs) ← readKey? cs
    match cs with
    | ']' :: cs => return (← d.enter? Entries.openTable? key, cs)
    | _ => none
  | cs => do
    let ((key, node), cs) ← readPair? (readValue? greatestDepth) cs
    return (← d.insert? key node, cs)

/-- The document after the line at the front of a text, and the text behind it. -/
def readLine? (d : DocumentReader) (cs : List Char) : Option (DocumentReader × List Char) := do
  let (d, cs) ← d.readEntry? (skipSpace cs)
  return (d, ← lineEnd? cs)

/-- The document after all lines of a text. -/
def readAll? (d : DocumentReader) (cs : List Char) : Option DocumentReader :=
  if cs.isEmpty then some d
  else
    match d.readLine? cs with
    | none => none
    | some (d, rest) => if rest.length < cs.length then readAll? d rest else none
termination_by cs.length

end DocumentReader

/-- The document that a text denotes. A mark of the byte order may stand before it. -/
def parse? (text : String) : Option Entries :=
  let cs :=
    match text.toList with
    | '\ufeff' :: cs => cs
    | cs => cs
  (DocumentReader.readAll? {} cs).map DocumentReader.root

/-! ## Writing -/

/-- The written form of a value. -/
def Scalar.print : Scalar → List Char
  | text s => quoted s
  | integer n => (toString n).toList
  | boolean b => (if b then "true" else "false").toList
  | float literal => literal.toList
  | moment literal => literal.toList

/-- A table with its path. All of its names are bare ones. -/
structure Section where
  path : List String
  entries : List (String × Scalar)

/-- The line of a value. -/
def printEntry (name : String) (value : Scalar) : List Char :=
  name.toList ++ [' ', '=', ' '] ++ value.print ++ ['\n']

/-- The header of a table and a line for each of its values. -/
def Section.print (s : Section) : List Char :=
  '[' :: (".".intercalate s.path).toList ++ [']', '\n'] ++
    s.entries.flatMap fun (name, value) => printEntry name value

/-- The text of a document: its tables with an empty line between two. -/
def print (sections : List Section) : String :=
  String.ofList (List.intercalate ['\n'] (sections.map Section.print))

end Toml

end ShaderAssembly
