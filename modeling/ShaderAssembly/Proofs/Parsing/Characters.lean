import ShaderAssembly.Translation
/-!
# Texts given by their characters

A text is an array of bytes, which has to be decoded before anything can be read from it. The
characters of a program that is written out are at hand, so such a program is evaluated on them.

* `Token.ofCharacters`, `ProgramReader.ofCharacters`: the tokens and a reader of some characters;
* `readCharacters?`: the program of some characters;
* `Token.ofSource_ofList`, `Header.classify_ofList`, `ProgramReader.ofSource_ofList`,
  **`toOption_readProgram_ofList`**, `toOption_translate_ofList`: what is read from a text is what is
  read from its characters.
-/

namespace ShaderAssembly

/-- The tokens of a text of the characters `cs` from byte `start` on. -/
def Token.ofCharacters (cs : List Char) (start : Nat) : List Token :=
  let (before, body) := Text.splitBytes start cs
  scanFrom (Text.byteLength before) body

theorem Token.ofSource_ofList (cs : List Char) (start : Nat) :
    ofSource (String.ofList cs) start = ofCharacters cs start := by
  rw [ofSource, String.toList_ofList, ofCharacters]

theorem Header.classify_ofList (cs : List Char) (kind : ProgramKind) :
    classify (String.ofList cs) kind =
      match Text.find? kind.signature.toList cs with
      | some start => .ok (start + kind.signature.utf8ByteSize)
      | none =>
        if Text.contains marker.toList cs then .error (.headerMismatch kind)
        else .error .headerMissing := by
  cases h : Text.find? kind.signature.toList cs <;>
    simp only [classify, find?, String.toList_ofList, h]

/-- A reader that stands on the first significant token of `cs` at or behind byte `start`. -/
def ProgramReader.ofCharacters (cs : List Char) (start : Nat) : ProgramReader where
  progress :=
    { cursor := Cursor.advance
        { source := cs
          current := Token.endAt start
          rest := (Token.ofCharacters cs start).filter (!·.isTrivia) }
      draft := {} }

theorem ProgramReader.ofSource_ofList (cs : List Char) (start : Nat) :
    ofSource (String.ofList cs) start = ofCharacters cs start := by
  rw [ofSource, Cursor.ofSource, Token.ofSource_ofList, String.toList_ofList, ofCharacters]

/-- The program of a text of the characters `cs`. -/
def readCharacters? (settings : TranslatorSettings) (cs : List Char) (kind : ProgramKind) :
    Option Model := do
  let signature ← Text.find? kind.signature.toList cs
  let start := signature + kind.signature.utf8ByteSize
  if (Token.ofCharacters cs start).head?.any Token.isTrivia then
    (((ProgramReader.ofCharacters cs start).run kind (settings.limits kind)).finish kind).toOption
  else none

theorem isFramed_ofList (cs : List Char) (start : Nat) :
    isFramed (String.ofList cs) start = (Token.ofCharacters cs start).head?.any Token.isTrivia := by
  rw [isFramed, Token.ofSource_ofList]
  cases Token.ofCharacters cs start <;> rfl

/-- Characters are read as the text that they make up. -/
theorem toOption_readProgram_ofList (settings : TranslatorSettings) (cs : List Char)
    (kind : ProgramKind) :
    (readProgram settings (String.ofList cs) kind).toOption = readCharacters? settings cs kind := by
  rw [readProgram, readCharacters?, Header.classify_ofList]
  cases Text.find? kind.signature.toList cs with
  | none =>
    cases Text.contains Header.marker.toList cs <;> rfl
  | some signature =>
    simp only [bind, Except.bind, Option.bind, isFramed_ofList, ProgramReader.ofSource_ofList]
    cases (Token.ofCharacters cs (signature + kind.signature.utf8ByteSize)).head?.any
        Token.isTrivia with
    | false => rfl
    | true =>
      simp only [Bool.not_true, Bool.false_eq_true, if_false, if_true]
      cases ((ProgramReader.ofCharacters cs (signature + kind.signature.utf8ByteSize)).run kind
        (settings.limits kind)).finish kind <;> rfl

theorem toOption_translate_ofList (settings : TranslatorSettings) (cs : List Char)
    (kind : ProgramKind) :
    (translate settings (String.ofList cs) kind).toOption =
      (readCharacters? settings cs kind).bind fun m =>
        (Glsl.generate m (settings.limits kind)).toOption := by
  rw [← toOption_readProgram_ofList, translate]
  cases readProgram settings (String.ofList cs) kind with
  | error e => rfl
  | ok m => simp only [bind, Except.bind, Except.toOption, Option.bind]

end ShaderAssembly
