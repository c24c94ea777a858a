import ShaderAssembly.Token.Lexer
/-!
# Cursors

A cursor stands on one significant token of a text; behind the last one it stands on the end of the
text for ever.
-/

namespace ShaderAssembly

/-- A place among the significant tokens of a text. -/
structure Cursor where
  source : List Char
  current : Token
  rest : List Token

namespace Cursor

/-- The end of the text as a token. -/
def endToken (c : Cursor) : Token := Token.endAt (Text.byteLength c.source)

/-- The token behind the current one. -/
def upcoming (c : Cursor) : Token := c.rest.head?.getD c.endToken

/-- The cursor on the token behind the current one. -/
def advance (c : Cursor) : Cursor := { c with current := c.upcoming, rest := c.rest.tail }

/-- The cursor on the first significant token at or behind byte `start`. -/
def ofSource (source : String) (start : Nat) : Cursor :=
  advance
    { source := source.toList
      current := Token.endAt start
      rest := (Token.ofSource source start).filter (!·.isTrivia) }

/-- The text from byte `start` to the end of the current token, blanks included. -/
def textFrom (c : Cursor) (start : Nat) : String :=
  String.ofList (Text.slice start c.current.stop c.source)

end Cursor

end ShaderAssembly
