import ShaderAssembly.Proofs.Generation.Scope
/-!
# How tokens of a shader are read

* `Level`: how tightly an expression holds together;
* `Reads`: the tokens that can be read as an expression, by the rules of the language;
* `ReadsStatement`: the tokens that can be read as an assignment or a discard.

Expressions are written without any parentheses but their own, so that their text might be read as
another expression; these rules say when it is not.
-/

namespace ShaderAssembly.Glsl

/-- How tightly an expression holds together, from names and calls to choices. -/
inductive Level where
  | operand
  | unary
  | product
  | sum
  | comparison
  | expression
deriving DecidableEq

/-- The rank of a level; a lower one holds together more tightly. -/
def Level.rank : Level → Nat
  | operand => 0
  | unary => 1
  | product => 2
  | sum => 3
  | comparison => 4
  | expression => 5

/-- The level of what stands between two operands with an operator. -/
def Operator.level : Operator → Level
  | add | sub => .sum
  | mul | div => .product
  | greater => .comparison

/-- The level that an operator asks of its right operand. -/
def Operator.right : Operator → Level
  | add | sub => .product
  | mul | div => .unary
  | greater => .sum

/-- The level of a number, whose sign counts as an operator. -/
def numberLevel : Single → Level
  | .finite false _ _ => .operand
  | _ => .unary

/-- Whether a token is a name. -/
def isName (token : String) : Bool := isWord token && !startsNumber token

/-- The tokens that can be read as an expression at a level. -/
inductive Reads : Level → List String → Expr → Prop where
  | number (v : Single) : v.isFinite = true → Reads (numberLevel v) (lex v.toText) (.number v)
  | whole (n : Nat) : Reads .operand [toString n] (.whole n)
  | name (n : String) : isName n = true → typeNames.contains n = false →
      Reads .operand [n] (.name n)
  | field {ts e} (selector : String) : Reads .operand ts e → isName selector = true →
      Reads .operand (ts ++ [".", selector]) (.field e selector)
  | element {ts us e i} : Reads .operand ts e → Reads .expression us i →
      Reads .operand (ts ++ ["["] ++ us ++ ["]"]) (.element e i)
  | negative {ts e} : Reads .unary ts e → Reads .unary (["-"] ++ ts) (.negative e)
  | group {ts e} : Reads .expression ts e → Reads .operand (["("] ++ ts ++ [")"]) (.group e)
  | binary {ts us a b} (op : Operator) : Reads op.level ts a → Reads op.right us b →
      Reads op.level (ts ++ [op.text] ++ us) (.binary op a b)
  | choose {ts us vs c a b} : Reads .comparison ts c → Reads .expression us a →
      Reads .expression vs b →
      Reads .expression (ts ++ ["?"] ++ us ++ [":"] ++ vs) (.choose c a b)
  | call0 (f : String) : isName f = true → Reads .operand [f, "(", ")"] (.call0 f)
  | call1 {ts a} (f : String) : isName f = true → Reads .expression ts a →
      Reads .operand ([f, "("] ++ ts ++ [")"]) (.call1 f a)
  | call2 {ts us a b} (f : String) : isName f = true → Reads .expression ts a →
      Reads .expression us b → Reads .operand ([f, "("] ++ ts ++ [","] ++ us ++ [")"]) (.call2 f a b)
  | call3 {ts us vs a b c} (f : String) : isName f = true → Reads .expression ts a →
      Reads .expression us b → Reads .expression vs c →
      Reads .operand ([f, "("] ++ ts ++ [","] ++ us ++ [","] ++ vs ++ [")"]) (.call3 f a b c)
  | call4 {ts us vs ws a b c d} (f : String) : isName f = true → Reads .expression ts a →
      Reads .expression us b → Reads .expression vs c → Reads .expression ws d →
      Reads .operand ([f, "("] ++ ts ++ [","] ++ us ++ [","] ++ vs ++ [","] ++ ws ++ [")"])
        (.call4 f a b c d)
  | looser {l l' ts e} : Reads l ts e → l.rank ≤ l'.rank → Reads l' ts e

/-- The tokens that can be read as a statement. -/
inductive ReadsStatement : List String → Line → Prop where
  | assign {ts us target value} : Reads .operand ts target → Reads .expression us value →
      ReadsStatement (ts ++ ["="] ++ us ++ [";"]) (.assign target value)
  | discardIf {ts condition} : Reads .expression ts condition →
      ReadsStatement (["if", "("] ++ ts ++ [")", "discard", ";"]) (.discardIf condition)

end ShaderAssembly.Glsl
