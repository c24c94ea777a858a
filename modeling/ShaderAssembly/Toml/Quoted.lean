import ShaderAssembly.Toml.Digits
import ShaderAssembly.Toml.Layout
/-!
# Strings between quotes

A string stands between double quotes, where a backslash starts an escape, or between single quotes,
where it does not. Three quotes on each side let the string run over several lines.

* `Toml.readLine?`, `Toml.readString?`: the string at the front of a text, on one line or several;
* `Toml.QuoteStyle.of`: the quotes to write a string with;
* `Toml.quoted`: the written form of a string.
-/

namespace ShaderAssembly

namespace Toml

/-! ## Reading -/

/-- The text up to the quote that closes it, and what follows. Where escapes have a meaning, a
backslash takes the next character with it. -/
def untilQuote? (mark : Char) (escapes : Bool) : List Char → Option (List Char × List Char)
  | [] => none
  | c :: cs =>
    if c = mark then some ([], cs)
    else if c = '\\' && escapes then
      match cs with
      | [] => none
      | d :: ds => (untilQuote? mark escapes ds).map fun (body, rest) => (c :: d :: body, rest)
    else (untilQuote? mark escapes cs).map fun (body, rest) => (c :: body, rest)

/-- The text up to the three quotes that close it, and what follows. Up to two quotes right before
those belong to the text. -/
def untilTripleQuote? (mark : Char) (escapes : Bool) : List Char → Option (List Char × List Char)
  | [] => none
  | c :: cs =>
    if [mark, mark, mark].isPrefixOf (c :: cs) then
      let behind := cs.drop 2
      let own := (behind.take 2).takeWhile (· == mark)
      some (own, behind.drop own.length)
    else if c = '\\' && escapes then
      match cs with
      | [] => none
      | d :: ds =>
        (untilTripleQuote? mark escapes ds).map fun (body, rest) => (c :: d :: body, rest)
    else (untilTripleQuote? mark escapes cs).map fun (body, rest) => (c :: body, rest)

/-- The text with every line break a line feed. -/
def lineFeeds? : List Char → Option (List Char)
  | [] => some []
  | '\r' :: '\n' :: cs => (lineFeeds? cs).map fun cs => '\n' :: cs
  | c :: cs => if c = '\r' then none else (lineFeeds? cs).map fun cs => c :: cs

/-- The character that a letter behind a backslash stands for. -/
def unescapeLetter? : Char → Option Char
  | 'b' => some '\x08'
  | 't' => some '\t'
  | 'n' => some '\n'
  | 'f' => some '\x0c'
  | 'r' => some '\r'
  | '"' => some '"'
  | '\\' => some '\\'
  | _ => none

/-- The character whose number the first `n` digits in base 16 are. -/
def codePoint? (n : Nat) (cs : List Char) : Option Char :=
  let digits := cs.take n
  if digits.length = n then
    (numeral? 16 digits).bind fun code => if code.isValidChar then some (Char.ofNat code) else none
  else none

/-- The characters between double quotes. A backslash at the end of a line takes away all space and
line breaks behind it. -/
def unescape? (multiline : Bool) : List Char → Option (List Char)
  | [] => some []
  | '\\' :: cs =>
    if multiline && (skipSpace cs).head? == some '\n' then
      unescape? multiline (cs.dropWhile fun c => isSpace c || c == '\n')
    else
      match cs with
      | [] => none
      | 'u' :: ds => do return (← codePoint? 4 ds) :: (← unescape? multiline (ds.drop 4))
      | 'U' :: ds => do return (← codePoint? 8 ds) :: (← unescape? multiline (ds.drop 8))
      | d :: ds => do return (← unescapeLetter? d) :: (← unescape? multiline ds)
  | c :: cs =>
    if isPlain c || (multiline && c == '\n') then (unescape? multiline cs).map fun cs => c :: cs
    else none
termination_by cs => cs.length
decreasing_by
  · have := (List.dropWhile_sublist (l := cs) fun c => isSpace c || c == '\n').length_le
    simp only [List.length_cons]; omega
  · simp only [List.length_cons, List.length_drop]; omega
  · simp only [List.length_cons, List.length_drop]; omega
  · simp only [List.length_cons]; omega
  · simp only [List.length_cons]; omega

/-- The characters between quotes. -/
def content? (mark : Char) (multiline : Bool) (body : List Char) : Option String :=
  if mark = '"' then (unescape? multiline body).map String.ofList
  else if body.all fun c => isPlain c || (multiline && c == '\n') then some (String.ofList body)
  else none

/-- The string at the front of a text, which ends on the line where it starts. -/
def readLine? : List Char → Option (String × List Char)
  | [] => none
  | mark :: cs =>
    if mark = '"' || mark = '\'' then do
      let (body, rest) ← untilQuote? mark (mark == '"') cs
      return (← content? mark false body, rest)
    else none

/-- The string behind three quotes at the front of a text. A line break right behind them is not
part of it. -/
def readLines? (mark : Char) (cs : List Char) : Option (String × List Char) := do
  let (body, rest) ← untilTripleQuote? mark (mark == '"') cs
  let body ← lineFeeds? body
  let body := if body.head? == some '\n' then body.drop 1 else body
  return (← content? mark true body, rest)

/-- The string at the front of a text. -/
def readString? : List Char → Option (String × List Char)
  | '"' :: '"' :: '"' :: cs => readLines? '"' cs
  | '\'' :: '\'' :: '\'' :: cs => readLines? '\'' cs
  | cs => readLine? cs

/-! ## Writing -/

/-- The quotes around a string: which, and whether there are three on each side. -/
structure QuoteStyle where
  mark : Char
  multiline : Bool
deriving DecidableEq, Repr

/-- Whether a character can only be written as an escape. -/
def needsEscape (c : Char) : Bool := !isPlain c && c != '\n'

/-- The longest run of a character, where `run` of them stand before the text. -/
def longestRun (mark : Char) : Nat → List Char → Nat
  | run, [] => run
  | run, c :: cs =>
    if c = mark then longestRun mark (run + 1) cs else max run (longestRun mark 0 cs)

/-- The first quotes with which a string needs no escape, double ones before single ones and one
before three; without such, double ones, three of them for several lines. -/
def QuoteStyle.of (cs : List Char) : QuoteStyle :=
  let bare := !cs.any needsEscape
  let oneLine := !cs.contains '\n'
  if bare && oneLine && !cs.contains '\\' && !cs.contains '"' then ⟨'"', false⟩
  else if bare && oneLine && !cs.contains '\'' then ⟨'\'', false⟩
  else if bare && !cs.contains '\\' && longestRun '"' 0 cs ≤ 2 then ⟨'"', true⟩
  else if bare && longestRun '\'' 0 cs ≤ 2 then ⟨'\'', true⟩
  else ⟨'"', !oneLine⟩

/-- A digit in base 16, in capitals. -/
def hexDigit (n : Nat) : Char :=
  if n < 10 then Char.ofNat ('0'.toNat + n) else Char.ofNat ('A'.toNat + n - 10)

/-- The escape for a character, if it has one. -/
def escapeOf? (c : Char) : Option (List Char) :=
  match c with
  | '\x08' => some ['\\', 'b']
  | '\t' => some ['\\', 't']
  | '\n' => some ['\\', 'n']
  | '\x0c' => some ['\\', 'f']
  | '\r' => some ['\\', 'r']
  | '"' => some ['\\', '"']
  | '\\' => some ['\\', '\\']
  | c =>
    if isPlain c then none
    else some ['\\', 'u', '0', '0', hexDigit (c.toNat / 16), hexDigit (c.toNat % 16)]

/-- The text between double quotes, where `run` quotes stand before it. Of quotes in a row the first
two need no escape between three. -/
def escape (multiline : Bool) : Nat → List Char → List Char
  | _, [] => []
  | run, c :: cs =>
    if multiline && c == '"' && decide (run < 2) then '"' :: escape multiline (run + 1) cs
    else if multiline && c == '\n' then '\n' :: escape multiline 0 cs
    else ((escapeOf? c).getD [c]) ++ escape multiline 0 cs

/-- The written form of a string in a style. A string of several lines starts on a line of its
own. -/
def QuoteStyle.write (style : QuoteStyle) (cs : List Char) : List Char :=
  let marks := List.replicate (if style.multiline then 3 else 1) style.mark
  let gap := if style.multiline && cs.contains '\n' then ['\n'] else []
  let body := if style.mark = '"' then escape style.multiline 0 cs else cs
  marks ++ gap ++ body ++ marks

/-- The written form of a string. -/
def quoted (s : String) : List Char := (QuoteStyle.of s.toList).write s.toList

end Toml

end ShaderAssembly
