import ShaderAssembly.Glsl.Line
/-!
# The tokens of a shader

* `lex`: the words and the signs of a text, blanks left out; a number with a point is several
  tokens;
* `Expr.tokens`, `Line.tokens`: the tokens that expressions and lines stand for;
* `Expr.call?`: the calls, which have their tokens in common;
* **`Expr.lex_text`**, **`Line.lex_text`**: they are the tokens of the text, if all names are words.
-/

namespace ShaderAssembly.Glsl

/-! ## Words and signs -/

/-- Letters, digits and `_`. -/
def isNameChar (c : Char) : Bool := c.isAlphanum || c == '_'

/-- The token of the characters of a word, if there are any. -/
def wordToken (word : List Char) : List String :=
  if word.isEmpty then [] else [String.ofList word]

/-- The token of a character outside words; blanks have none. -/
def signToken (c : Char) : List String :=
  if c == ' ' || c == '\n' then [] else [String.singleton c]

/-- The tokens of a text that goes on behind the characters of a word. -/
def lexFrom (word : List Char) : List Char → List String
  | [] => wordToken word
  | c :: cs =>
    if isNameChar c then lexFrom (word ++ [c]) cs
    else wordToken word ++ (signToken c ++ lexFrom [] cs)

/-- The tokens of a text. -/
def lex (text : String) : List String := lexFrom [] text.toList

/-- Whether a text is one word. -/
def isWord (text : String) : Bool := !text.toList.isEmpty && text.toList.all isNameChar

theorem lexFrom_append (word cs ds : List Char) {c : Char} (hc : isNameChar c = false) :
    lexFrom word (cs ++ c :: ds) = lexFrom word cs ++ (signToken c ++ lexFrom [] ds) := by
  induction cs generalizing word with
  | nil => simp [lexFrom, hc]
  | cons d cs ih =>
    simp only [List.cons_append, lexFrom, ih]
    split
    · rfl
    · simp only [List.append_assoc]

theorem lexFrom_word (word cs : List Char) (h : cs.all isNameChar = true) :
    lexFrom word cs = wordToken (word ++ cs) := by
  induction cs generalizing word with
  | nil => simp [lexFrom]
  | cons c cs ih =>
    simp only [List.all_cons, Bool.and_eq_true] at h
    simp [lexFrom, h.1, ih _ h.2]

theorem lex_word {text : String} (h : isWord text = true) : lex text = [text] := by
  simp only [isWord, Bool.and_eq_true, Bool.not_eq_true'] at h
  rw [lex, lexFrom_word _ _ h.2, wordToken, List.nil_append, h.1]
  simp

theorem lex_append {signs : String} (hne : signs.toList ≠ [])
    (hsigns : signs.toList.any isNameChar = false) (a b : String) :
    lex (a ++ (signs ++ b)) = lex a ++ (signs.toList.flatMap signToken ++ lex b) := by
  have hsigns : ∀ c ∈ signs.toList, isNameChar c = false := by simpa using hsigns
  simp only [lex, String.toList_append]
  generalize signs.toList = cs at hne hsigns
  generalize a.toList = as
  induction cs generalizing as with
  | nil => exact absurd rfl hne
  | cons c cs ih =>
    rw [List.cons_append, lexFrom_append _ _ _ (hsigns c List.mem_cons_self)]
    cases cs with
    | nil => simp
    | cons d ds =>
      have hrest := ih (by simp) (fun e he => hsigns e (List.mem_cons_of_mem _ he)) []
      rw [List.nil_append] at hrest
      rw [hrest]
      simp [lexFrom, wordToken]

theorem lex_empty : lex "" = [] := rfl

theorem lex_signs_append {signs : String} (hne : signs.toList ≠ [])
    (hsigns : signs.toList.any isNameChar = false) (b : String) :
    lex (signs ++ b) = signs.toList.flatMap signToken ++ lex b := by
  have h := lex_append hne hsigns "" b
  rwa [String.empty_append, lex_empty, List.nil_append] at h

theorem lex_append_signs {signs : String} (hne : signs.toList ≠ [])
    (hsigns : signs.toList.any isNameChar = false) (a : String) :
    lex (a ++ signs) = lex a ++ signs.toList.flatMap signToken := by
  have h := lex_append hne hsigns a ""
  rwa [String.append_empty, lex_empty, List.append_nil] at h

/-! ## Expressions -/

/-- All names, selectors and functions of an expression are words. -/
def Expr.Spelled : Expr → Prop
  | number _ | whole _ => True
  | name s => isWord s = true
  | field e selector => e.Spelled ∧ isWord selector = true
  | element e i => e.Spelled ∧ i.Spelled
  | negative e | group e => e.Spelled
  | binary _ a b => a.Spelled ∧ b.Spelled
  | choose condition a b => condition.Spelled ∧ a.Spelled ∧ b.Spelled
  | call0 f => isWord f = true
  | call1 f a => isWord f = true ∧ a.Spelled
  | call2 f a b => isWord f = true ∧ a.Spelled ∧ b.Spelled
  | call3 f a b c => isWord f = true ∧ a.Spelled ∧ b.Spelled ∧ c.Spelled
  | call4 f a b c d => isWord f = true ∧ a.Spelled ∧ b.Spelled ∧ c.Spelled ∧ d.Spelled

/-- The tokens of an expression. -/
def Expr.tokens : Expr → List String
  | number v => lex v.toText
  | whole n => [toString n]
  | name s => [s]
  | field e selector => e.tokens ++ [".", selector]
  | element e i => e.tokens ++ ["["] ++ i.tokens ++ ["]"]
  | negative e => ["-"] ++ e.tokens
  | group e => ["("] ++ e.tokens ++ [")"]
  | binary op a b => a.tokens ++ [op.text] ++ b.tokens
  | choose condition a b => condition.tokens ++ ["?"] ++ a.tokens ++ [":"] ++ b.tokens
  | call0 f => [f, "(", ")"]
  | call1 f a => [f, "("] ++ a.tokens ++ [")"]
  | call2 f a b => [f, "("] ++ a.tokens ++ [","] ++ b.tokens ++ [")"]
  | call3 f a b c => [f, "("] ++ a.tokens ++ [","] ++ b.tokens ++ [","] ++ c.tokens ++ [")"]
  | call4 f a b c d =>
    [f, "("] ++ a.tokens ++ [","] ++ b.tokens ++ [","] ++ c.tokens ++ [","] ++ d.tokens ++ [")"]

theorem isWord_toString (n : Nat) : isWord (toString n) = true := by
  have hne : Nat.toDigits 10 n ≠ [] := Nat.toDigits_ne_nil
  have hdigit : ∀ c ∈ Nat.toDigits 10 n, isNameChar c = true := fun c hc => by
    simp [isNameChar, Char.isAlphanum, Nat.isDigit_of_mem_toDigits (by decide) (by decide) hc]
  rw [isWord, Nat.toString_eq_repr, Nat.repr, String.toList_ofList]
  simpa [hne] using hdigit

theorem toString_injective {m n : Nat} (h : toString m = toString n) : m = n := by
  have hd := congrArg (fun s => Nat.ofDigitChars 10 s.toList 0) h
  simpa [Nat.ofDigitChars_toDigits] using hd

/-- The tokens of expressions with commas between them. -/
def listTokens (items : List Expr) : List String := [","].intercalate (items.map Expr.tokens)

theorem lex_intercalate {items : List Expr} (h : ∀ e ∈ items, lex e.text = e.tokens) :
    lex (", ".intercalate (items.map Expr.text)) = listTokens items := by
  induction items with
  | nil => rfl
  | cons e items ih =>
    have he := h e List.mem_cons_self
    cases items with
    | nil => simpa [listTokens] using he
    | cons e' items =>
      have hrest := ih fun x hx => h x (List.mem_cons_of_mem _ hx)
      rw [List.map_cons, List.map_cons, String.intercalate_cons_cons, String.append_assoc,
        lex_append (by decide) (by decide), he, ← List.map_cons, hrest]
      simp [listTokens, signToken]

/-- The function and the arguments of a call, however many these are. -/
def Expr.call? : Expr → Option (String × List Expr)
  | call0 f => some (f, [])
  | call1 f a => some (f, [a])
  | call2 f a b => some (f, [a, b])
  | call3 f a b c => some (f, [a, b, c])
  | call4 f a b c d => some (f, [a, b, c, d])
  | _ => none

section Call

variable {e : Expr} {f : String} {items : List Expr} (h : e.call? = some (f, items))
include h

theorem Expr.text_of_call :
    e.text = f ++ ("(" ++ (", ".intercalate (items.map Expr.text) ++ ")")) := by
  cases e <;> cases h <;> simp [text, String.append_assoc]

theorem Expr.tokens_of_call : e.tokens = f :: "(" :: (listTokens items ++ [")"]) := by
  cases e <;> cases h <;> simp [tokens, listTokens]

theorem Expr.lex_of_call (hf : isWord f = true) (hitems : ∀ x ∈ items, lex x.text = x.tokens) :
    lex e.text = e.tokens := by
  rw [text_of_call h, lex_append (by decide) (by decide), lex_append_signs (by decide) (by decide),
    lex_word hf, lex_intercalate hitems, tokens_of_call h]
  rfl

end Call

/-- **The tokens of an expression are the tokens of its text.** -/
theorem Expr.lex_text {e : Expr} (h : e.Spelled) : lex e.text = e.tokens := by
  induction e with
  | number v => rfl
  | whole n => exact lex_word (isWord_toString n)
  | name s => exact lex_word h
  | field e selector ih =>
    rw [text, String.append_assoc, lex_append (by decide) (by decide), ih h.1, lex_word h.2]
    rfl
  | element e i ihe ihi =>
    rw [text, String.append_assoc, String.append_assoc, lex_append (by decide) (by decide),
      lex_append_signs (by decide) (by decide), ihe h.1, ihi h.2]
    simp [tokens, signToken]
  | negative e ih =>
    rw [text, lex_signs_append (by decide) (by decide), ih h]
    simp [tokens, signToken]
  | group e ih =>
    rw [text, String.append_assoc, lex_signs_append (by decide) (by decide),
      lex_append_signs (by decide) (by decide), ih h]
    simp [tokens, signToken]
  | binary op a b iha ihb =>
    have hop : op.text.toList ≠ [] ∧ op.text.toList.any isNameChar = false ∧
        op.text.toList.flatMap signToken = [op.text] := by cases op <;> decide
    rw [text]
    simp only [String.append_assoc]
    rw [lex_append (by decide) (by decide), lex_signs_append hop.1 hop.2.1, hop.2.2,
      lex_signs_append (by decide) (by decide), iha h.1, ihb h.2]
    simp [tokens, signToken]
  | choose c a b ihc iha ihb =>
    rw [text]
    simp only [String.append_assoc]
    rw [lex_append (by decide) (by decide), lex_append (by decide) (by decide), ihc h.1, iha h.2.1,
      ihb h.2.2]
    simp [tokens, signToken]
  | call0 f => exact lex_of_call rfl h (List.forall_mem_nil _)
  | call1 f a iha => exact lex_of_call rfl h.1 (by simpa using iha h.2)
  | call2 f a b iha ihb => exact lex_of_call rfl h.1 (by simpa using ⟨iha h.2.1, ihb h.2.2⟩)
  | call3 f a b c iha ihb ihc =>
    exact lex_of_call rfl h.1 (by simpa using ⟨iha h.2.1, ihb h.2.2.1, ihc h.2.2.2⟩)
  | call4 f a b c d iha ihb ihc ihd =>
    exact lex_of_call rfl h.1
      (by simpa using ⟨iha h.2.1, ihb h.2.2.1, ihc h.2.2.2.1, ihd h.2.2.2.2⟩)

/-! ## Lines -/

/-- All names of a line are words. -/
def Line.Spelled : Line → Prop
  | version | rectangleExtension | addressType | openMain | closeMain => True
  | bank name _ => isWord name = true
  | sampler type name => isWord type = true ∧ isWord name = true
  | declare type name value => isWord type = true ∧ isWord name = true ∧ value.Spelled
  | declareArray name items => isWord name = true ∧ ∀ e ∈ items, e.Spelled
  | assign target value => target.Spelled ∧ value.Spelled
  | discardIf condition => condition.Spelled

/-- The tokens of a line. -/
def Line.tokens : Line → List String
  | version => ["#", "version", "120"]
  | rectangleExtension => ["#", "extension", "GL_ARB_texture_rectangle", ":", "enable"]
  | addressType => ["struct", "ARBAddress", "\x7b", "int", "x", ";", "\x7d", ";"]
  | bank name size => ["uniform", "vec4", name, "[", toString size, "]", ";"]
  | sampler type name => ["uniform", type, name, ";"]
  | openMain => ["void", "main", "(", ")", "\x7b"]
  | declare type name value => [type, name, "="] ++ value.tokens ++ [";"]
  | declareArray name items =>
    ["vec4", name, "[", toString items.length, "]", "=", "vec4", "[", toString items.length, "]",
      "("] ++ listTokens items ++ [")", ";"]
  | assign target value => target.tokens ++ ["="] ++ value.tokens ++ [";"]
  | discardIf condition => ["if", "("] ++ condition.tokens ++ [")", "discard", ";"]
  | closeMain => ["\x7d"]

theorem lex_words (before a : String) : lex (before ++ (" " ++ a)) = lex before ++ lex a := by
  rw [lex_append (by decide) (by decide)]
  simp [signToken]

/-- **The tokens of a line are the tokens of its text.** -/
theorem Line.lex_text {l : Line} (h : l.Spelled) : lex l.text = l.tokens := by
  cases l with
  | version | rectangleExtension | addressType | openMain | closeMain => decide +kernel
  | bank name size =>
    have e : (bank name size).text =
        "uniform vec4" ++ " " ++ name ++ "[" ++ toString size ++ "];" := rfl
    have hwords : lex "uniform vec4" = ["uniform", "vec4"] := by decide +kernel
    rw [e]
    simp only [String.append_assoc]
    rw [lex_words, lex_append (by decide) (by decide), lex_append_signs (by decide) (by decide),
      lex_word h, lex_word (isWord_toString size), hwords]
    rfl
  | sampler type name =>
    have e : (sampler type name).text = "uniform" ++ " " ++ type ++ " " ++ name ++ ";" := rfl
    rw [e]
    simp only [String.append_assoc]
    rw [lex_words, lex_words, lex_append_signs (by decide) (by decide), lex_word (by decide),
      lex_word h.1, lex_word h.2]
    rfl
  | declare type name value =>
    have e : (declare type name value).text = type ++ " " ++ name ++ " = " ++ value.text ++ ";" := rfl
    rw [e]
    simp only [String.append_assoc]
    rw [lex_words, lex_append (by decide) (by decide), lex_append_signs (by decide) (by decide),
      lex_word h.1, lex_word h.2.1, Expr.lex_text h.2.2]
    simp [tokens, signToken]
  | declareArray name items =>
    have e : (declareArray name items).text = "vec4" ++ " " ++ name ++ "[" ++
        toString items.length ++ ("] = " ++ "vec4" ++ "[") ++ toString items.length ++ "](" ++
        ", ".intercalate (items.map Expr.text) ++ ");" := rfl
    rw [e]
    simp only [String.append_assoc]
    rw [lex_words, lex_append (by decide) (by decide), lex_append (by decide) (by decide),
      lex_append (by decide) (by decide), lex_append (by decide) (by decide),
      lex_append_signs (by decide) (by decide), lex_word (by decide), lex_word h.1,
      lex_word (isWord_toString _), lex_intercalate fun e he => Expr.lex_text (h.2 e he)]
    simp [tokens, signToken]
  | assign target value =>
    have e : (assign target value).text = target.text ++ " = " ++ value.text ++ ";" := rfl
    rw [e]
    simp only [String.append_assoc]
    rw [lex_append (by decide) (by decide), lex_append_signs (by decide) (by decide),
      Expr.lex_text h.1, Expr.lex_text h.2]
    simp [tokens, signToken]
  | discardIf condition =>
    have e : (discardIf condition).text = "if" ++ " (" ++ condition.text ++ (") " ++ "discard;") :=
      rfl
    have hdiscard : lex "discard;" = ["discard", ";"] := by decide +kernel
    rw [e]
    simp only [String.append_assoc]
    rw [lex_append (by decide) (by decide), lex_append (by decide) (by decide), lex_word (by decide),
      Expr.lex_text h, hdiscard]
    simp [tokens, signToken]

end ShaderAssembly.Glsl
