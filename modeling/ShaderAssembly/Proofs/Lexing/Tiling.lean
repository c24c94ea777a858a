import ShaderAssembly.Proofs.Lexing.Bytes
import ShaderAssembly.Proofs.Lexing.Kind
/-!
# Tokens tile a text

The lexer can be run a token at a time over the bytes of a text. It then moves a byte offset, and
would fail if it cut the text inside a character.

* `Lexer`, `Lexer.advance`: such a lexer, and its step;
* `Lexer.token_eq`: it reads the token that is scanned where it stands;
* `Lexer.current_after`: what it has read after any number of steps;
* **`Lexer.advance_tiles`**: it never fails, and reads the tokens of the text, which tile it, and then
  the end of the text for ever.
-/

namespace ShaderAssembly

/-- A token by its place. -/
structure Span where
  kind : TokenKind
  offset : Nat
  length : Nat
deriving DecidableEq

/-- The place of a token. -/
def Token.span (t : Token) : Span := ⟨t.kind, t.offset, t.length⟩

/-- A lexer over the bytes of a text. -/
structure Lexer where
  source : String
  /-- The byte at which the next token starts. -/
  position : Nat
  /-- The last token that was read. -/
  current : Span
deriving DecidableEq

namespace Lexer

/-! ## The step of a lexer -/

/-- The lexer set on byte `start` of a text, with nothing read. -/
def ofSource (source : String) (start : Nat) : Lexer :=
  let start := min start source.utf8ByteSize
  ⟨source, start, ⟨.endOfText, start, 0⟩⟩

/-- The bytes that are still to be read, each as the character with its number. -/
def ahead (l : Lexer) : List Char := ((Bytes.ofText l.source).drop l.position).map Char.ofUInt8

/-- A byte that starts no character. -/
def isContinuation (c : Char) : Bool := 0x80 ≤ c.toNat && c.toNat < 0xC0

/-- The class and the number of bytes of the number ahead, or of the word that its digits run on
into. Its text is cut out. -/
def number (l : Lexer) : Option (TokenKind × Nat) :=
  let whole := l.ahead.takeWhile Char.isDigit
  let (fraction, afterFraction) := fractionPart (l.ahead.dropWhile Char.isDigit)
  let (power, rest) := exponentPart afterFraction
  let isWhole := fraction.isEmpty && power.isEmpty
  if isWhole && startsWith isWordStart rest then
    some (.identifier, whole.length + (rest.takeWhile isWordChar).length)
  else
    let n := whole.length + fraction.length + power.length
    (Text.slice? l.position (l.position + n) l.source.toList).map fun text =>
      (numberKind isWhole text, n)

/-- The class and the number of bytes of the token ahead. A comment ends at a byte that starts a
character. -/
def token (l : Lexer) : Option (TokenKind × Nat) :=
  (Text.splitBytes? l.position l.source.toList).bind fun (_, body) =>
    match body with
    | [] => some (.endOfText, 0)
    | c :: _ =>
      if c == '\n' then some (.newline, 1)
      else if c == '\r' && startsWith (· == '\n') l.ahead.tail then some (.newline, 2)
      else if isBlank c || c == '\r' then some (.whitespace, (blanks l.ahead).1.length)
      else if c == '#' then
        let (run, rest) := restOfLine l.ahead
        some (.whitespace, run.length + (rest.takeWhile isContinuation).length)
      else if isWordStart c then some (.identifier, (l.ahead.takeWhile isWordChar).length)
      else if c.isDigit || (c == '.' && startsWith Char.isDigit l.ahead.tail) then l.number
      else if c == '.' && startsWith (· == '.') l.ahead.tail then some (.dotDot, 2)
      else some (punctuation c, c.utf8Size)

/-- The lexer behind the token ahead. -/
def advance (l : Lexer) : Option Lexer :=
  l.token.map fun (kind, n) => ⟨l.source, l.position + n, ⟨kind, l.position, n⟩⟩

/-- The lexer after some steps. -/
def after : Nat → Lexer → Option Lexer
  | 0, l => some l
  | n + 1, l => l.advance.bind (after n)

/-! ## Where a lexer stands -/

/-- The lexer stands between two parts of its text. -/
structure Between (l : Lexer) (before body : List Char) : Prop where
  source : l.source.toList = before ++ body
  position : l.position = Text.byteLength before

variable {l : Lexer} {before body : List Char} {c : Char} {cs : List Char}

theorem Between.ahead_eq (h : l.Between before body) : l.ahead = Text.octets body := by
  have hsource : l.source = String.ofList before ++ String.ofList body := by
    rw [← String.ofList_append, ← h.source, String.ofList_toList]
  have hposition : l.position = (String.ofList before).utf8ByteSize := by
    rw [h.position, ← Text.byteLength_toList, String.toList_ofList]
  rw [ahead, hsource, hposition, Bytes.octets_ofText, String.toList_ofList]

theorem Between.splitBytes?_eq (h : l.Between before body) :
    Text.splitBytes? l.position l.source.toList = some (before, body) := by
  rw [h.source, h.position, Text.splitBytes?_append]

theorem byteLength_of_octets {run rest : List Char}
    (h : run ++ Text.octets rest = Text.octets (run ++ rest)) : Text.byteLength run = run.length := by
  rw [Text.octets_append] at h
  rw [← Text.length_octets, ← List.append_cancel_right h]

theorem byteLength_takeWhile {p : Char → Bool} (hp : Text.IsAscii p) (cs : List Char) :
    Text.byteLength (cs.takeWhile p) = (cs.takeWhile p).length := by
  obtain ⟨htake, hdrop⟩ := Text.takeWhile_octets hp cs
  have h : cs.takeWhile p ++ Text.octets (cs.dropWhile p) =
      Text.octets (cs.takeWhile p ++ cs.dropWhile p) := by
    rw [← htake, ← hdrop, List.takeWhile_append_dropWhile, htake, List.takeWhile_append_dropWhile]
  exact byteLength_of_octets h

theorem byteLength_blanks (cs : List Char) :
    Text.byteLength (blanks cs).1 = (blanks cs).1.length := by
  have h := Lexeme.blanks_append (Text.octets cs)
  rw [blanks_octets] at h
  exact byteLength_of_octets (h.trans (by rw [Lexeme.blanks_append]))

theorem byteLength_fractionPart (cs : List Char) :
    Text.byteLength (fractionPart cs).1 = (fractionPart cs).1.length := by
  have h := Lexeme.fractionPart_append (Text.octets cs)
  rw [fractionPart_octets] at h
  exact byteLength_of_octets (h.trans (by rw [Lexeme.fractionPart_append]))

theorem byteLength_exponentPart (cs : List Char) :
    Text.byteLength (exponentPart cs).1 = (exponentPart cs).1.length := by
  have h := Lexeme.exponentPart_append (Text.octets cs)
  rw [exponentPart_octets] at h
  exact byteLength_of_octets (h.trans (by rw [Lexeme.exponentPart_append]))

theorem startsWith_tail_octets {p q : Char → Bool} (hq : Text.IsAscii q) (hp : Text.IsAscii p)
    (c : Char) (cs : List Char) :
    (q c && startsWith p (Text.octets (c :: cs)).tail) = (q c && startsWith p cs) := by
  cases hc : q c with
  | false => rfl
  | true => rw [Text.octets_cons_of_lt (hq c hc), List.tail_cons, Text.startsWith_octets hp]

/-- A line that has ended, or a text that has, ends with a byte that starts a character. -/
theorem takeWhile_isContinuation {cs : List Char} (h : cs = [] ∨ Lexeme.BreaksLine cs) :
    (Text.octets cs).takeWhile isContinuation = [] := by
  obtain rfl | ⟨cs, rfl⟩ | ⟨cs, rfl⟩ := h
  · rfl
  · rw [List.singleton_append, Text.octets_cons_of_lt (by decide)]
    rfl
  · rw [List.cons_append, Text.octets_cons_of_lt (by decide)]
    rfl

/-! ## The token that is read -/

/-- The number ahead is the one that is scanned there, and its text can be cut out. -/
theorem Between.number_eq (h : l.Between before (c :: cs)) :
    l.number = some ((scanNumber (c :: cs)).kind, Text.byteLength (scanNumber (c :: cs)).text) := by
  have hsplit := Lexeme.scanNumber_append (c :: cs)
  obtain ⟨htake, hdrop⟩ := Text.takeWhile_octets Text.isAscii_isDigit (c :: cs)
  have hwhole := byteLength_takeWhile Text.isAscii_isDigit (c :: cs)
  simp only [scanNumber] at hsplit ⊢
  simp only [number, h.ahead_eq, htake, hdrop, fractionPart_octets, exponentPart_octets,
    Text.startsWith_octets Text.isAscii_isWordStart,
    (Text.takeWhile_octets Text.isAscii_isWordChar _).1]
  split
  · rw [Text.byteLength_append, hwhole, byteLength_takeWhile Text.isAscii_isWordChar]
  · rename_i hnumber
    rw [if_neg hnumber] at hsplit
    have hslice := Text.slice?_append before
      ((c :: cs).takeWhile Char.isDigit ++ (fractionPart ((c :: cs).dropWhile Char.isDigit)).1 ++
        (exponentPart (fractionPart ((c :: cs).dropWhile Char.isDigit)).2).1)
      (exponentPart (fractionPart ((c :: cs).dropWhile Char.isDigit)).2).2
    rw [hsplit, ← h.source, ← h.position, Text.byteLength_append, Text.byteLength_append, hwhole,
      byteLength_fractionPart, byteLength_exponentPart] at hslice
    rw [hslice, Text.byteLength_append, Text.byteLength_append, hwhole, byteLength_fractionPart,
      byteLength_exponentPart]
    rfl

/-- **The token ahead is the one that is scanned there.** -/
theorem Between.token_eq (h : l.Between before body) :
    l.token = some (match body with
      | [] => (.endOfText, 0)
      | c :: cs => ((Lexeme.scan c cs).kind, Text.byteLength (Lexeme.scan c cs).text)) := by
  rw [token, h.splitBytes?_eq, Option.bind_some]
  cases body with
  | nil => rfl
  | cons c cs =>
    have hreturn := startsWith_tail_octets Text.isAscii_return Text.isAscii_newline c cs
    have hnumber := startsWith_tail_octets Text.isAscii_point Text.isAscii_isDigit c cs
    have hdots := startsWith_tail_octets Text.isAscii_point Text.isAscii_point c cs
    dsimp only at hreturn hnumber hdots ⊢
    rw [h.number_eq, h.ahead_eq, hreturn, hnumber, hdots]
    unfold Lexeme.scan
    split
    · rfl
    split
    · rfl
    rename_i hline
    split
    case isTrue hblank =>
      rw [blanks_octets, ← byteLength_blanks, Lexeme.blanks_cons hblank hline]
    split
    case isTrue hcomment =>
      obtain rfl := beq_iff_eq.1 hcomment
      have hrun : restOfLine ('#' :: cs) = ('#' :: (restOfLine cs).1, (restOfLine cs).2) := rfl
      rw [restOfLine_octets, hrun]
      dsimp only
      rw [Text.length_octets, takeWhile_isContinuation (Lexeme.restOfLine_spec cs).2]
      rfl
    split
    case isTrue hword =>
      have hrun : (c :: cs).takeWhile isWordChar = c :: cs.takeWhile isWordChar :=
        List.takeWhile_cons_of_pos (by simp [isWordChar, hword])
      rw [(Text.takeWhile_octets Text.isAscii_isWordChar _).1, ← byteLength_takeWhile
        Text.isAscii_isWordChar, hrun]
    split
    case isTrue hnumber =>
      rfl
    split
    · rfl
    · rfl

theorem Between.advance_eq (h : l.Between before (c :: cs)) : ∃ l', l.advance = some l' ∧
    l'.current = ⟨(Lexeme.scan c cs).kind, l.position, Text.byteLength (Lexeme.scan c cs).text⟩ ∧
    l'.position = l.position + Text.byteLength (Lexeme.scan c cs).text ∧
    l'.Between (before ++ (Lexeme.scan c cs).text) (Lexeme.scan c cs).rest := by
  refine ⟨_, by rw [advance, h.token_eq]; rfl, rfl, rfl, ?_, ?_⟩
  · rw [List.append_assoc, Lexeme.text_append_rest]
    exact h.source
  · rw [Text.byteLength_append, ← h.position]

theorem Between.advance_eq_nil (h : l.Between before []) :
    l.advance = some { l with current := ⟨.endOfText, l.position, 0⟩ } := by
  rw [advance, h.token_eq]
  rfl

/-! ## Runs -/

/-- **What has been read after any number of steps**: the tokens, one after the other, and then the end
of the text for ever. -/
theorem current_after (h : l.Between before body) (n : Nat) : ∃ l', l.after (n + 1) = some l' ∧
    l'.current = ((Token.scanFrom l.position body)[n]?.map Token.span).getD
      ⟨.endOfText, Text.byteLength (before ++ body), 0⟩ := by
  induction n generalizing l before body with
  | zero =>
    cases body with
    | nil =>
      refine ⟨_, by rw [after, h.advance_eq_nil]; rfl, ?_⟩
      rw [List.append_nil, ← h.position, Token.scanFrom]
      rfl
    | cons c cs =>
      obtain ⟨l', hadvance, hcurrent, -, -⟩ := h.advance_eq
      refine ⟨l', by rw [after, hadvance]; rfl, ?_⟩
      rw [hcurrent, Token.scanFrom, List.getElem?_cons_zero, Option.map_some, Option.getD_some,
        Token.span, Token.length, ← Text.byteLength_toList, String.toList_ofList]
  | succ n ih =>
    cases body with
    | nil =>
      obtain ⟨l', hafter, hcurrent⟩ :=
        ih (l := { l with current := ⟨.endOfText, l.position, 0⟩ }) ⟨h.source, h.position⟩
      refine ⟨l', by rw [after, h.advance_eq_nil]; exact hafter, hcurrent.trans ?_⟩
      rw [Token.scanFrom]
      rfl
    | cons c cs =>
      obtain ⟨l₁, hadvance, -, hposition, hbetween⟩ := h.advance_eq
      obtain ⟨l', hafter, hcurrent⟩ := ih hbetween
      refine ⟨l', by rw [after, hadvance]; exact hafter, hcurrent.trans ?_⟩
      rw [List.append_assoc, Lexeme.text_append_rest, hposition, Token.scanFrom.eq_def _ (c :: cs),
        List.getElem?_cons_succ]

end Lexer

/-! ## Tokens end to end -/

namespace Token

/-- The tokens stand end to end between two bytes. -/
def Tile : Nat → List Token → Nat → Prop
  | start, [], stop => start = stop
  | start, t :: ts, stop => t.offset = start ∧ Tile t.stop ts stop

theorem tile_scanFrom (offset : Nat) (cs : List Char) :
    Tile offset (scanFrom offset cs) (offset + Text.byteLength cs) := by
  fun_induction scanFrom offset cs with
  | case1 => rfl
  | case2 offset c cs lexeme ih =>
    have hsize : Text.byteLength (c :: cs) = Text.byteLength lexeme.text + Text.byteLength lexeme.rest := by
      rw [← Text.byteLength_append, Lexeme.text_append_rest]
    refine ⟨rfl, ?_⟩
    rwa [stop, length, ← Text.byteLength_toList, String.toList_ofList, hsize, ← Nat.add_assoc]

theorem flatMap_scanFrom (offset : Nat) (cs : List Char) :
    (scanFrom offset cs).flatMap (·.text.toList) = cs := by
  fun_induction scanFrom offset cs with
  | case1 => rfl
  | case2 offset c cs lexeme ih =>
    rw [List.flatMap_cons, ih, String.toList_ofList]
    exact Lexeme.text_append_rest c cs

theorem cut_of_mem_ofSource {source : String} {start : Nat} {t : Token} (h : t ∈ ofSource source start) :
    t.kind ≠ .endOfText ∧ 0 < t.length ∧
      Text.slice? t.offset t.stop source.toList = some t.text.toList := by
  obtain ⟨before, after, hsource, hoffset⟩ := standsAt_of_mem_ofSource h
  obtain ⟨_, c, cs, -, -, hkind, htext⟩ := exists_scan_of_mem_ofSource h
  have hlength : Text.byteLength t.text.toList = t.length := Text.byteLength_toList _
  refine ⟨hkind ▸ (Lexeme.shape_scan c cs).kind_ne_endOfText, Nat.pos_of_ne_zero fun hzero => ?_, ?_⟩
  · exact Lexeme.text_ne_nil c cs (htext.trans (Text.eq_nil_of_byteLength (hlength.trans hzero)))
  · rw [stop, hsource, List.append_assoc, ← hoffset, ← hlength, Text.slice?_append]

end Token

/-- **Tokens tile a text.** A lexer that is set between two parts of a text never fails. It reads the
tokens of the text one after the other, and then, for ever, the end of the text, which is empty and
stands behind the last byte. No token is empty or the end of the text; each starts where the one
before it ends, between characters, and their texts are the second part. -/
theorem Lexer.advance_tiles (before body : String) :
    let source := before ++ body
    let l := ofSource source before.utf8ByteSize
    let tokens := Token.ofSource source before.utf8ByteSize
    (∀ n, ∃ l', l.after (n + 1) = some l' ∧
      l'.current = (tokens[n]?.map Token.span).getD ⟨.endOfText, source.utf8ByteSize, 0⟩) ∧
    Token.Tile before.utf8ByteSize tokens source.utf8ByteSize ∧
    tokens.flatMap (·.text.toList) = body.toList ∧
    ∀ t ∈ tokens, t.kind ≠ .endOfText ∧ 0 < t.length ∧
      Text.slice? t.offset t.stop source.toList = some t.text.toList := by
  intro source l tokens
  have htokens : tokens = Token.scanFrom before.utf8ByteSize body.toList :=
    Token.ofSource_append before body
  have hposition : l.position = before.utf8ByteSize :=
    Nat.min_eq_left (by rw [String.utf8ByteSize_append]; exact Nat.le_add_right _ _)
  have hsize : Text.byteLength (before.toList ++ body.toList) = source.utf8ByteSize := by
    rw [← String.toList_append, Text.byteLength_toList]
  have hbetween : l.Between before.toList body.toList :=
    ⟨String.toList_append, by rw [hposition, Text.byteLength_toList]⟩
  refine ⟨fun n => ?_, ?_, ?_, fun t ht => Token.cut_of_mem_ofSource ht⟩
  · obtain ⟨l', hafter, hcurrent⟩ := current_after hbetween n
    rw [hposition, ← htokens, hsize] at hcurrent
    exact ⟨l', hafter, hcurrent⟩
  · have htile := Token.tile_scanFrom before.utf8ByteSize body.toList
    rwa [← htokens, Text.byteLength_toList, ← String.utf8ByteSize_append] at htile
  · rw [htokens, Token.flatMap_scanFrom]

/-- A comment may hold characters of any length. -/
example : ((Lexer.ofSource "# é\r\nEND" 0).after 2).map (·.current) = some ⟨.newline, 4, 2⟩ := by
  decide +kernel

end ShaderAssembly
