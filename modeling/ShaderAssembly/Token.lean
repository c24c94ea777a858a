import ShaderAssembly.Single
/-!
# Tokens

A text divides into tokens, blanks and comments included: whether a header line has ended depends
on them. Between statements and inside them they are *trivia* and are passed over.
-/

namespace ShaderAssembly

/-- Whether a word may start with the character: a letter of the Latin alphabet, `_` or `$`. -/
def isWordStart (c : Char) : Bool := c.isAlpha || c == '_' || c == '$'

/-- Whether a word may go on with the character. -/
def isWordChar (c : Char) : Bool := isWordStart c || c.isDigit

/-- The class of a token, with the value of a number. -/
inductive TokenKind where
  | newline
  | whitespace
  | identifier
  | integer (value : Nat)
  | float (value : Single)
  | semicolon
  | comma
  | dot
  | dotDot
  | leftBracket
  | rightBracket
  | leftBrace
  | rightBrace
  | equals
  | plus
  | minus
  | endOfText
  | invalid (c : Char)
deriving DecidableEq, Inhabited

/-- A token: its class, the byte at which it starts, and its text. Words hold the characters of
words only. -/
structure Token where
  kind : TokenKind
  offset : Nat
  text : String
  word : kind = .identifier → text.toList.all isWordChar = true := by simp
deriving DecidableEq

namespace Token

/-- The number of bytes of a token. -/
def length (t : Token) : Nat := t.text.utf8ByteSize

/-- The byte just past a token. -/
def stop (t : Token) : Nat := t.offset + t.length

/-- Blanks, comments and line ends. -/
def isTrivia (t : Token) : Bool := t.kind == .whitespace || t.kind == .newline

/-- The token that stands for the end of a text. -/
def endAt (offset : Nat) : Token := { kind := .endOfText, offset, text := "" }

instance : Inhabited Token := ⟨endAt 0⟩

end Token

end ShaderAssembly
