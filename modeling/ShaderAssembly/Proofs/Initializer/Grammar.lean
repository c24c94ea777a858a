import ShaderAssembly.Proofs.Locality.Scan
/-!
# Initializers of parameters

What an initializer says, how it is spelled, and the vectors that it stands for.

* `Cursor.Signed`, `Cursor.Ranges`, `Cursor.Lists`: numbers, subscripts and lists between two places
  of a text;
* `MatrixName.Spelled`, `Cursor.Suffixed`, `Cursor.Rows`: the parts of a matrix;
* `Initializer.Spelled`: the forms of an initializer;
* `Initializer.Admissible`: which initializers are accepted;
* **`Initializer.expand`**: the vectors of an initializer, in their order;
* `Initialization`: what a whole declaration says.
-/

namespace ShaderAssembly

variable {α : Type}

/-- The token is the given word. -/
def Token.IsWord (text : String) (t : Token) : Prop := t.kind = .identifier ∧ t.text = text

/-- The token is a number, and finite. -/
def Token.IsNumber (v : Single) (t : Token) : Prop := t.number? = some v ∧ v.isFinite = true

/-! ## Numbers, subscripts and lists -/

namespace Cursor

/-- A number with an optional sign. -/
inductive Signed (c : Cursor) : Single → Cursor → Prop
  | bare {v : Single} {d : Cursor} : c.Shows [Token.IsNumber v] d → Signed c v d
  | plus {v : Single} {d : Cursor} : c.Shows [(·.kind = .plus), Token.IsNumber v] d → Signed c v d
  | minus {v : Single} {d : Cursor} :
    c.Shows [(·.kind = .minus), Token.IsNumber v] d → Signed c v.negate d

/-- A subscript `[a]` or `[a..b]`, with its first and its last number. -/
inductive Ranges (c : Cursor) : Nat → Nat → Cursor → Prop
  | one {a : Nat} {d : Cursor} :
    c.Shows [(·.kind = .leftBracket), (·.kind = .integer a), (·.kind = .rightBracket)] d → Ranges c a a d
  | many {a b : Nat} {d : Cursor} :
    c.Shows [(·.kind = .leftBracket), (·.kind = .integer a), (·.kind = .dotDot),
      (·.kind = .integer b), (·.kind = .rightBracket)] d → Ranges c a b d

/-- Items with commas between them, up to the brace behind the last one. -/
inductive Lists (P : Cursor → α → Cursor → Prop) : Cursor → List α → Cursor → Prop
  | last {c d e : Cursor} {a : α} : P c a d → d.Shows [(·.kind = .rightBrace)] e → Lists P c [a] e
  | more {c d e f : Cursor} {a : α} {as : List α} :
    P c a d → d.Shows [(·.kind = .comma)] e → Lists P e as f → Lists P c (a :: as) f

/-- A point and a word, or nothing. -/
def Suffixed (c : Cursor) : Option String → Cursor → Prop
  | none, d => d = c
  | some text, d => c.Shows [(·.kind = .dot), Token.IsWord text] d

/-- Rows of a matrix by their numbers, or nothing, which means all of them. -/
inductive Rows (c : Cursor) : Option (Nat × Nat) → Cursor → Prop
  | all : Rows c none c
  | some {a b : Nat} {d e : Cursor} :
    c.Suffixed (some "row") d → d.Ranges a b e → Rows c (some (a, b)) e

/-- No initializer goes on with the next token. -/
def Ends (c : Cursor) : Prop := c.upcoming.kind ≠ .dot ∧ c.upcoming.kind ≠ .leftBracket

end Cursor

/-! ## Matrices and banks -/

/-- The name of a matrix, with its subscript. -/
inductive MatrixName.Spelled (limits : Limits) (c : Cursor) : MatrixName → Cursor → Prop
  | modelView {d : Cursor} : c.Shows [Token.IsWord "modelview"] d → Spelled limits c .modelView d
  | modelViewZero {d : Cursor} :
    c.Shows [Token.IsWord "modelview", (·.kind = .leftBracket), (·.kind = .integer 0),
      (·.kind = .rightBracket)] d → Spelled limits c .modelView d
  | projection {d : Cursor} : c.Shows [Token.IsWord "projection"] d → Spelled limits c .projection d
  | mvp {d : Cursor} : c.Shows [Token.IsWord "mvp"] d → Spelled limits c .mvp d
  | textureZero {d : Cursor} : c.Shows [Token.IsWord "texture"] d → Spelled limits c (.texture 0) d
  | texture {n : Nat} {d : Cursor} :
    c.Shows [Token.IsWord "texture", (·.kind = .leftBracket), (·.kind = .integer n),
      (·.kind = .rightBracket)] d → n < limits.maxTextureCoords → Spelled limits c (.texture n) d

/-- The word for what is taken of a matrix. -/
def MatrixModifier.word? : MatrixModifier → Option String
  | .identity => none
  | .inverse => some "inverse"
  | .transpose => some "transpose"
  | .inverseTranspose => some "invtrans"

/-- One of the two banks of parameters. -/
inductive Bank where
  | env
  | localParams
deriving DecidableEq, Repr, Inhabited

namespace Bank

/-- The word for a bank. -/
def word : Bank → String
  | env => "env"
  | localParams => "local"

/-- A place in a bank. -/
def place : Bank → Nat → ParamBinding
  | env => .env
  | localParams => .localParam

/-- The number of places in a bank. -/
def size (limits : Limits) : Bank → Nat
  | env => limits.maxEnvParams
  | localParams => limits.maxLocalParams

end Bank

/-! ## Initializers -/

/-- An initializer of a parameter. -/
inductive Initializer where
  /-- One number for all four components. -/
  | scalar (v : Single)
  /-- The first components of a vector. -/
  | vector (vs : List Single)
  /-- A matrix, or some rows of it. -/
  | matrix (name : MatrixName) (modifier : MatrixModifier) (rows : Option (Nat × Nat))
  /-- The places of a bank from a first to a last one. -/
  | bank (bank : Bank) (start stop : Nat)
  /-- Any other vector of the state. -/
  | state (b : StateBinding)

namespace Initializer

variable (limits : Limits)

/-- How an initializer is spelled between two places of a text. -/
inductive Spelled (c : Cursor) : Initializer → Cursor → Prop
  | scalar {v : Single} {d : Cursor} : c.Signed v d → Spelled c (.scalar v) d
  | empty {d : Cursor} :
    c.Shows [(·.kind = .leftBrace), (·.kind = .rightBrace)] d → Spelled c (.vector []) d
  | vector {vs : List Single} {d e : Cursor} : c.Shows [(·.kind = .leftBrace)] d →
    d.Lists Cursor.Signed vs e → Spelled c (.vector vs) e
  | matrix {name : MatrixName} {modifier : MatrixModifier} {rows : Option (Nat × Nat)}
      {d e f g : Cursor} :
    c.Shows [Token.IsWord "state", (·.kind = .dot), Token.IsWord "matrix", (·.kind = .dot)] d →
      name.Spelled limits d e → e.Suffixed modifier.word? f → f.Rows rows g →
      Spelled c (.matrix name modifier rows) g
  | bank {bank : Bank} {start stop : Nat} {d e : Cursor} :
    c.Shows [Token.IsWord "program", (·.kind = .dot), Token.IsWord bank.word] d →
      d.Ranges start stop e → Spelled c (.bank bank start stop) e
  | state {b : StateBinding} {d e : Cursor} : c.Shows [Token.IsWord "state"] d →
    (∀ e, ¬ d.Suffixed (some "matrix") e) → Scan.stateBinding limits d = .ok [b] e →
      Spelled c (.state b) e

/-- A vector has one to four components; a range does not run backwards and ends inside its matrix or
its bank. -/
def Admissible : Initializer → Prop
  | scalar _ | state _ => True
  | vector vs => 1 ≤ vs.length ∧ vs.length ≤ 4
  | matrix _ _ rows => ∀ r ∈ rows, r.1 ≤ r.2 ∧ r.2 < matrixRowCount
  | bank k start stop => start ≤ stop ∧ stop < k.size limits

/-- The vectors of an initializer, in their order. -/
def expand : Initializer → List ParamBinding
  | scalar v => [.constant (.replicate v)]
  | vector vs => [.constant (.ofPrefix vs)]
  | matrix name modifier none => [0, 1, 2, 3].map fun row => .state (.matrixRow name modifier row)
  | matrix name modifier (some (start, stop)) =>
    (Scan.span start stop).map fun row => .state (.matrixRow name modifier row)
  | bank k start stop => (Scan.span start stop).map k.place
  | state b => [.state b]

variable {limits : Limits}

theorem length_span (start stop : Nat) : (Scan.span start stop).length = stop + 1 - start :=
  List.length_range'

theorem expand_ne_nil {i : Initializer} (h : i.Admissible limits) : i.expand ≠ [] := by
  have hspan {β : Type} {f : Nat → β} {start stop : Nat} (hle : start ≤ stop) :
      (Scan.span start stop).map f ≠ [] := by
    rw [← List.length_pos_iff, List.length_map, length_span]
    omega
  cases i with
  | scalar v | vector vs | state b => exact List.cons_ne_nil _ _
  | matrix name modifier rows =>
    cases rows with
    | none => exact List.cons_ne_nil _ _
    | some r => exact hspan (h r rfl).1
  | bank k start stop => exact hspan h.1

theorem flatMap_expand_ne_nil {items : List Initializer} (hitems : items ≠ [])
    (h : ∀ i ∈ items, i.Admissible limits) : items.flatMap expand ≠ [] := by
  obtain ⟨i, hi⟩ := List.exists_mem_of_ne_nil items hitems
  exact fun hnone => expand_ne_nil (h i hi) (List.flatMap_eq_nil_iff.1 hnone i hi)

end Initializer

/-! ## Moving on -/

section

variable {limits : Limits} {c d : Cursor}

namespace Cursor

theorem Shows.suffix {Ps : List (Token → Prop)} (h : c.Shows Ps d) : d.rest <:+ c.rest := by
  induction Ps generalizing c with
  | nil => exact (show d = c from h) ▸ List.suffix_refl _
  | cons P Ps ih => exact (ih h.2).trans (List.tail_suffix _)

theorem Shows.length_lt {kind : TokenKind} (h : c.Shows [(·.kind = kind)] d) (hkind : kind ≠ .endOfText) :
    d.rest.length < c.rest.length := by
  obtain ⟨hupcoming, rfl⟩ := h
  have hrest : c.rest = c.upcoming :: c.rest.tail := rest_of_upcoming (by rwa [hupcoming])
  rw [hrest, advance]
  exact Nat.lt_succ_self _

theorem Signed.suffix {v : Single} (h : c.Signed v d) : d.rest <:+ c.rest := by
  cases h with
  | bare h | plus h | minus h => exact h.suffix

theorem Ranges.suffix {a b : Nat} (h : c.Ranges a b d) : d.rest <:+ c.rest := by
  cases h with
  | one h | many h => exact h.suffix

theorem Suffixed.suffix {text? : Option String} (h : c.Suffixed text? d) : d.rest <:+ c.rest := by
  cases text? with
  | none => exact (show d = c from h) ▸ List.suffix_refl _
  | some text => exact Shows.suffix h

theorem Rows.suffix {rows : Option (Nat × Nat)} (h : c.Rows rows d) : d.rest <:+ c.rest := by
  cases h with
  | all => exact List.suffix_refl _
  | some hword hrange => exact hrange.suffix.trans hword.suffix

theorem Lists.suffix {P : Cursor → α → Cursor → Prop} {as : List α} (h : c.Lists P as d)
    (hP : ∀ c a d, P c a d → d.rest <:+ c.rest) : d.rest <:+ c.rest := by
  induction h with
  | last ha hend => exact hend.suffix.trans (hP _ _ _ ha)
  | more ha hcomma _ ih => exact ih.trans (hcomma.suffix.trans (hP _ _ _ ha))

theorem Lists.ne_nil {P : Cursor → α → Cursor → Prop} {as : List α} (h : c.Lists P as d) : as ≠ [] := by
  cases h <;> exact List.cons_ne_nil _ _

/-- Each item of a list takes a token at least. -/
theorem Lists.length_le {P : Cursor → α → Cursor → Prop} {as : List α} (h : c.Lists P as d)
    (hP : ∀ c a d, P c a d → d.rest <:+ c.rest) : as.length ≤ c.rest.length := by
  induction h with
  | last ha hend =>
    have hlt := hend.length_lt (by decide)
    have hle := (hP _ _ _ ha).length_le
    simp only [List.length_cons, List.length_nil]
    omega
  | more ha hcomma _ ih =>
    have hlt := hcomma.length_lt (by decide)
    have hle := (hP _ _ _ ha).length_le
    simp only [List.length_cons]
    omega

end Cursor

theorem MatrixName.Spelled.suffix {name : MatrixName} (h : name.Spelled limits c d) :
    d.rest <:+ c.rest := by
  cases h with
  | modelView h | modelViewZero h | projection h | mvp h | textureZero h | texture h _ => exact h.suffix

theorem Initializer.Spelled.suffix {i : Initializer} (h : i.Spelled limits c d) :
    d.rest <:+ c.rest := by
  cases h with
  | scalar h => exact h.suffix
  | empty h => exact h.suffix
  | vector hleft h => exact (h.suffix fun _ _ _ => Cursor.Signed.suffix).trans hleft.suffix
  | matrix hwords hname hmodifier hrows =>
    exact hrows.suffix.trans (hmodifier.suffix.trans (hname.suffix.trans hwords.suffix))
  | bank hword hrange => exact hrange.suffix.trans hword.suffix
  | state hword _ hread => exact (Scan.IsLocal.suffix hread).trans hword.suffix

end

/-! ## Declarations -/

/-- What a declaration says about its parameter: one initializer, or a list of them and perhaps their
number. -/
inductive Initialization where
  | single (item : Initializer)
  | array (size : Option Nat) (items : List Initializer)

namespace Initialization

variable (limits : Limits)

/-- How a declaration is spelled between the word that opens it and the semicolon that ends it. -/
inductive Spelled (name : Token) (c : Cursor) : Initialization → Cursor → Prop
  | single {item : Initializer} {d e f : Cursor} :
    c.Shows [fun t => t.kind = .identifier ∧ t = name, (·.kind = .equals)] d →
      item.Spelled limits d e → e.Shows [(·.kind = .semicolon)] f → Spelled name c (.single item) f
  | array {size : Option Nat} {items : List Initializer} {d e f g h : Cursor} :
    c.Shows [fun t => t.kind = .identifier ∧ t = name, (·.kind = .leftBracket)] d →
      d.Shows (size.toList.map fun n t => t.kind = .integer n) e →
      e.Shows [(·.kind = .rightBracket), (·.kind = .equals), (·.kind = .leftBrace)] f →
      f.Lists (Initializer.Spelled limits) items g → g.Shows [(·.kind = .semicolon)] h →
      Spelled name c (.array size items) h

/-- One initializer has to be one vector; a number of vectors has to be the right one. -/
def Admissible : Initialization → Prop
  | single item => item.Admissible limits ∧ item.expand.length = 1
  | array size items =>
    (∀ i ∈ items, i.Admissible limits) ∧ ∀ n ∈ size, n = (items.flatMap Initializer.expand).length

/-- The variable that a declaration brings up: the one vector, or the vectors of all initializers, in
their order. -/
inductive Gives : Initialization → VariableKind → Prop
  | single {item : Initializer} {b : ParamBinding} : item.expand = [b] → Gives (.single item) (.param b)
  | array (size : Option Nat) (items : List Initializer) :
    Gives (.array size items) (.paramArray (items.flatMap Initializer.expand))

end Initialization

end ShaderAssembly
