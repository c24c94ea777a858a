/-!
# Space, comments and ends of lines

* `Toml.skipSpace`: what may stand between the parts of a line;
* `Toml.skipLines`: what may stand between the items of a list;
* `Toml.lineEnd?`: what must stand behind a line.
-/

namespace ShaderAssembly

namespace Toml

/-- Whether a character is space within a line. -/
def isSpace (c : Char) : Bool := c == ' ' || c == '\t'

/-- Whether a character may stand in a comment or between quotes: all but control codes may, and of
those the tab. -/
def isPlain (c : Char) : Bool := c == '\t' || (decide (' ' ≤ c) && c != '\x7f')

/-- The text without space at its front. -/
def skipSpace (cs : List Char) : List Char := cs.dropWhile isSpace

/-- The text without a comment at its front. -/
def skipComment : List Char → List Char
  | '#' :: cs => cs.dropWhile isPlain
  | cs => cs

/-- The text behind a line break. -/
def lineBreak? : List Char → Option (List Char)
  | '\n' :: cs => some cs
  | '\r' :: '\n' :: cs => some cs
  | _ => none

/-- The text behind the end of a line, which space and a comment may precede; the last line ends
with the text. -/
def lineEnd? (cs : List Char) : Option (List Char) :=
  match skipComment (skipSpace cs) with
  | [] => some []
  | rest => lineBreak? rest

/-- The text without space, comments and line breaks at its front. -/
def skipLines (inComment : Bool) : List Char → List Char
  | [] => []
  | '\n' :: cs => skipLines false cs
  | '\r' :: '\n' :: cs => skipLines false cs
  | c :: cs =>
    if inComment then
      if isPlain c then skipLines true cs else c :: cs
    else if isSpace c then skipLines false cs
    else if c = '#' then skipLines true cs
    else c :: cs

end Toml

end ShaderAssembly
