import ShaderAssembly.Glsl.Line
import ShaderAssembly.Proofs.Meaning.Vector
/-!
# What shaders mean

* `Value`: the values of expressions; a number is a vector of one component;
* `Function`: the functions that shaders call, and `Function.apply`: what they give;
* `Expr.eval`: the value of an expression in a store, if it has the types that the language asks for;
* `Expr.write`: the store behind an assignment to an expression;
* `Line.exec`: the store behind a statement, unless the statement discards the fragment.
-/

namespace ShaderAssembly.Glsl

variable {K : Type}

/-! ## Values -/

/-- A value. Numbers and truth values come in vectors, and arrays hold vectors of four. -/
inductive Value (K : Type) where
  | reals (cs : List K)
  | bools (bs : List Bool)
  | int (n : Int)
  | address (x : Int)
  | array (size : Nat) (items : Nat → Vec4 K)
  | sampler (target : TextureTarget) (unit : Nat)

/-- A vector of four as a value. -/
def Value.vec4 (v : Vec4 K) : Value K := .reals v.toList

/-- What the variables of a shader hold. -/
abbrev Store (K : Type) : Type := String → Option (Value K)

/-- The store with a new value for a name. -/
def Store.set (σ : Store K) (name : String) (v : Value K) : Store K :=
  fun n => if n = name then some v else σ n

theorem Store.set_self (σ : Store K) (name : String) (v : Value K) : σ.set name v name = some v :=
  if_pos rfl

theorem Store.set_ne (σ : Store K) {name n : String} (v : Value K) (h : n ≠ name) :
    σ.set name v n = σ n := if_neg h

namespace Value

/-- Whether values have the same type. -/
def sameType : Value K → Value K → Bool
  | reals as, reals bs => as.length == bs.length
  | bools as, bools bs => as.length == bs.length
  | int _, int _ | address _, address _ => true
  | array n _, array n' _ => n == n'
  | _, _ => false

/-- The components that a selector names, by position or by color. -/
def components? (selector : String) : Option (List Component) :=
  selector.toList.mapM (Component.ofLetter? true)

/-- The components of a vector that a selector names, or the number in an address. -/
def select (selector : String) : Value K → Option (Value K)
  | reals cs => do
    if cs.length < 2 then none
    reals <$> (← components? selector).mapM fun c => cs[c.index]?
  | address x => if selector = "x" then some (int x) else none
  | _ => none

/-- The vector with some of its components replaced, one after the other. -/
def replace (cs : List K) : List Component → List K → List K
  | c :: names, a :: as => replace (cs.set c.index a) names as
  | _, _ => cs

/-- A vector with new values for the components that a selector names. -/
def update (selector : String) : Value K → Value K → Option (Value K)
  | reals cs, reals as => do
    let names ← components? selector
    if names.Nodup ∧ names.length = as.length ∧ ∀ c ∈ names, c.index < cs.length then
      some (reals (replace cs names as))
    else none
  | address _, int n => if selector = "x" then some (address n) else none
  | _, _ => none

/-- The item at a place that is inside the array. -/
def item : Value K → Value K → Option (Value K)
  | array size items, int k => if 0 ≤ k ∧ k < size then some (vec4 (items k.toNat)) else none
  | _, _ => none

/-- An array with a new item at a place inside it. -/
def setItem : Value K → Value K → Value K → Option (Value K)
  | array size items, int k, reals [a, b, c, d] =>
    if 0 ≤ k ∧ k < size then some (array size (Function.update items k.toNat (.of a b c d)))
    else none
  | _, _, _ => none

end Value

/-! ## Operators and functions -/

/-- A function applied component by component; a number stands for all components of a vector. -/
def broadcast (f : K → K → K) (as bs : List K) : Option (List K) :=
  match as, bs with
  | as, [b] => some (as.map (f · b))
  | [a], bs => some (bs.map (f a))
  | as, bs => if as.length = bs.length then some (List.zipWith f as bs) else none

/-- The same where only the second argument may be a number for a vector. -/
def broadcastRight (f : K → K → K) (as bs : List K) : Option (List K) :=
  if as.length = bs.length then some (List.zipWith f as bs)
  else match bs with
    | [b] => some (as.map (f · b))
    | _ => none

/-- The functions that shaders call. -/
inductive Function where
  | vec4 | int | abs | floor | fract | exp2 | log2 | sin | cos | inversesqrt | pow | max | min
  | clamp | mix | dot | cross | lessThan | greaterThanEqual | any | ftransform
  | texture (target : TextureTarget)
  | textureProj (target : TextureTarget)
deriving DecidableEq

namespace Function

/-- The name of a function. -/
def name : Function → String
  | vec4 => "vec4"
  | int => "int"
  | abs => "abs"
  | floor => "floor"
  | fract => "fract"
  | exp2 => "exp2"
  | log2 => "log2"
  | sin => "sin"
  | cos => "cos"
  | inversesqrt => "inversesqrt"
  | pow => "pow"
  | max => "max"
  | min => "min"
  | clamp => "clamp"
  | mix => "mix"
  | dot => "dot"
  | cross => "cross"
  | lessThan => "lessThan"
  | greaterThanEqual => "greaterThanEqual"
  | any => "any"
  | ftransform => "ftransform"
  | texture .tex1D => "texture1D"
  | texture .tex2D => "texture2D"
  | texture .tex3D => "texture3D"
  | texture .cube => "textureCube"
  | texture .rect => "texture2DRect"
  | textureProj .tex1D => "texture1DProj"
  | textureProj .tex2D => "texture2DProj"
  | textureProj .tex3D => "texture3DProj"
  | textureProj .cube => "textureCubeProj"
  | textureProj .rect => "texture2DRectProj"

/-- The functions that there are. A cube cannot be projected. -/
def all : List Function :=
  [vec4, int, abs, floor, fract, exp2, log2, sin, cos, inversesqrt, pow, max, min, clamp, mix, dot,
   cross, lessThan, greaterThanEqual, any, ftransform, texture .tex1D, texture .tex2D,
   texture .tex3D, texture .cube, texture .rect, textureProj .tex1D, textureProj .tex2D,
   textureProj .tex3D, textureProj .rect]

/-- The function of a name. -/
def ofName? (name : String) : Option Function := all.find? fun f => f.name == name

theorem ofName?_name {f : Function} (h : f ∈ all) : ofName? f.name = some f := by
  revert f
  decide +kernel

end Function

variable [Field K] [LinearOrder K]

/-- What an operator gives. Only numbers are compared. -/
def Operator.apply : Operator → Value K → Value K → Option (Value K)
  | add, .reals as, .reals bs => .reals <$> broadcast (· + ·) as bs
  | sub, .reals as, .reals bs => .reals <$> broadcast (· - ·) as bs
  | mul, .reals as, .reals bs => .reals <$> broadcast (· * ·) as bs
  | div, .reals as, .reals bs => .reals <$> broadcast (· / ·) as bs
  | greater, .reals [a], .reals [b] => some (.bools [decide (b < a)])
  | add, .int a, .int b => some (.int (a + b))
  | sub, .int a, .int b => some (.int (a - b))
  | _, _, _ => none

/-- The numbers that a value brings into a vector that is built from it. -/
def Value.numbers : Value K → Option (List K)
  | reals cs => some cs
  | bools bs => some (bs.map fun b => if b then 1 else 0)
  | _ => none

/-- How many coordinates a texture has. -/
def dimensions : TextureTarget → Nat
  | .tex1D => 1
  | .tex2D | .rect => 2
  | .tex3D | .cube => 3

/-- The vector that is built from some values. -/
def buildVec4 (args : List (Value K)) : Option (Value K) := do
  match (← args.mapM Value.numbers).flatten with
  | [a] => some (.reals [a, a, a, a])
  | [a, b, c, d] => some (.reals [a, b, c, d])
  | _ => none

/-- What a function gives. -/
def Function.apply (B : Builtins K) : Function → List (Value K) → Option (Value K)
  | vec4, args => buildVec4 args
  | int, [.reals [a]] => some (.int (B.truncate a))
  | abs, [.reals as] => some (.reals (as.map (|·|)))
  | floor, [.reals as] => some (.reals (as.map B.floor))
  | fract, [.reals as] => some (.reals (as.map fun a => a - B.floor a))
  | exp2, [.reals as] => some (.reals (as.map B.exp2))
  | log2, [.reals as] => some (.reals (as.map B.log2))
  | sin, [.reals as] => some (.reals (as.map B.sin))
  | cos, [.reals as] => some (.reals (as.map B.cos))
  | inversesqrt, [.reals as] => some (.reals (as.map B.inversesqrt))
  | pow, [.reals as, .reals bs] =>
    if as.length = bs.length then some (.reals (List.zipWith B.pow as bs)) else none
  | max, [.reals as, .reals bs] => .reals <$> broadcastRight Max.max as bs
  | min, [.reals as, .reals bs] => .reals <$> broadcastRight Min.min as bs
  | clamp, [.reals as, .reals lows, .reals highs] => do
    .reals <$> broadcastRight Min.min (← broadcastRight Max.max as lows) highs
  | mix, [.reals as, .reals bs, .reals ts] => do
    let xs ← broadcastRight (fun a t => a * (1 - t)) as ts
    let ys ← broadcastRight (fun b t => b * t) bs ts
    if as.length = bs.length then some (.reals (List.zipWith (· + ·) xs ys)) else none
  | dot, [.reals as, .reals bs] =>
    if as.length = bs.length then some (.reals [(List.zipWith (· * ·) as bs).sum]) else none
  | cross, [.reals [a, b, c], .reals [d, e, f]] =>
    some (.reals [b * f - c * e, c * d - a * f, a * e - b * d])
  | lessThan, [.reals as, .reals bs] =>
    if 2 ≤ as.length ∧ as.length = bs.length then
      some (.bools (List.zipWith (fun a b => decide (a < b)) as bs)) else none
  | greaterThanEqual, [.reals as, .reals bs] =>
    if 2 ≤ as.length ∧ as.length = bs.length then
      some (.bools (List.zipWith (fun a b => decide (b ≤ a)) as bs)) else none
  | any, [.bools bs] => if 2 ≤ bs.length then some (.bools [bs.any id]) else none
  | ftransform, [] => some (.vec4 B.fixedPosition)
  | texture target, [.sampler target' unit, .reals cs] =>
    if target = target' ∧ cs.length = dimensions target then
      some (.vec4 (B.texture target unit cs)) else none
  | texture target, [.sampler target' unit, .reals cs, .reals [bias]] =>
    if target = target' ∧ target ≠ .rect ∧ cs.length = dimensions target then
      some (.vec4 (B.textureBiased target unit cs bias)) else none
  | textureProj target, [.sampler target' unit, .reals [a, b, c, d]] =>
    if target = target' then
      some (.vec4 (B.texture target unit (([a, b, c].take (dimensions target)).map (· / d)))) else none
  | _, _ => none

/-- What a function of a name gives. -/
def call (B : Builtins K) (f : String) (args : List (Value K)) : Option (Value K) := do
  (← Function.ofName? f).apply B args

/-! ## Expressions -/

/-- The value of an expression in a store. -/
def Expr.eval (B : Builtins K) (σ : Store K) : Expr → Option (Value K)
  | number v => some (.reals [v.value])
  | whole n => some (.int n)
  | name s => σ s
  | field e selector => do (← e.eval B σ).select selector
  | element e i => do (← e.eval B σ).item (← i.eval B σ)
  | negative e => do
    match ← e.eval B σ with
    | .reals cs => some (.reals (cs.map (- ·)))
    | _ => none
  | group e => e.eval B σ
  | binary op a b => do op.apply (← a.eval B σ) (← b.eval B σ)
  | choose condition a b => do
    let t ← condition.eval B σ
    let va ← a.eval B σ
    let vb ← b.eval B σ
    match t with
    | .bools [t] => if va.sameType vb then some (if t then va else vb) else none
    | _ => none
  | call0 f => call B f []
  | call1 f a => do call B f [← a.eval B σ]
  | call2 f a b => do call B f [← a.eval B σ, ← b.eval B σ]
  | call3 f a b c => do call B f [← a.eval B σ, ← b.eval B σ, ← c.eval B σ]
  | call4 f a b c d => do
    call B f [← a.eval B σ, ← b.eval B σ, ← c.eval B σ, ← d.eval B σ]

section Eval

variable {B : Builtins K} {σ : Store K} {e i a b c d : Expr}

theorem Expr.eval_number (v : Single) : (number v).eval B σ = some (.reals [v.value]) := rfl

theorem Expr.eval_whole (n : Nat) : (whole n).eval B σ = some (.int n) := rfl

theorem Expr.eval_name (s : String) : (name s).eval B σ = σ s := rfl

theorem Expr.eval_field (selector : String) :
    (field e selector).eval B σ = (e.eval B σ).bind (Value.select selector) := rfl

theorem Expr.eval_element :
    (element e i).eval B σ = (e.eval B σ).bind fun v => (i.eval B σ).bind v.item := rfl

theorem Expr.eval_negative_of {cs : List K} (h : e.eval B σ = some (.reals cs)) :
    (negative e).eval B σ = some (.reals (cs.map (- ·))) := congrArg (Option.bind · _) h

theorem Expr.eval_group : (group e).eval B σ = e.eval B σ := rfl

theorem Expr.eval_binary (op : Operator) :
    (binary op a b).eval B σ = (a.eval B σ).bind fun v => (b.eval B σ).bind (op.apply v) := rfl

theorem Expr.eval_choose_of {t : Bool} {va vb : Value K} (hc : c.eval B σ = some (.bools [t]))
    (ha : a.eval B σ = some va) (hb : b.eval B σ = some vb) :
    (choose c a b).eval B σ = if va.sameType vb then some (if t then va else vb) else none := by
  have h : (choose c a b).eval B σ = (c.eval B σ).bind _ := rfl
  rw [h, hc, ha, hb]
  rfl

variable {f : String}

theorem Expr.eval_call1 : (call1 f a).eval B σ = (a.eval B σ).bind fun va => call B f [va] := rfl

theorem Expr.eval_call2 :
    (call2 f a b).eval B σ =
      (a.eval B σ).bind fun va => (b.eval B σ).bind fun vb => call B f [va, vb] := rfl

theorem Expr.eval_call3 :
    (call3 f a b c).eval B σ = (a.eval B σ).bind fun va => (b.eval B σ).bind fun vb =>
      (c.eval B σ).bind fun vc => call B f [va, vb, vc] := rfl

theorem Expr.eval_call4 :
    (call4 f a b c d).eval B σ = (a.eval B σ).bind fun va => (b.eval B σ).bind fun vb =>
      (c.eval B σ).bind fun vc => (d.eval B σ).bind fun vd => call B f [va, vb, vc, vd] := rfl

end Eval

/-- The store behind the assignment of a value to an expression. -/
def Expr.write (B : Builtins K) (σ : Store K) : Expr → Value K → Option (Store K)
  | name s, v => do if (← σ s).sameType v then some (σ.set s v) else none
  | field e selector, v => do e.write B σ (← (← e.eval B σ).update selector v)
  | element e i, v => do e.write B σ (← (← e.eval B σ).setItem (← i.eval B σ) v)
  | _, _ => none

section Write

variable {B : Builtins K} {σ : Store K} {e i : Expr} {old place new v : Value K}

theorem Expr.write_name_of {s : String} (h : σ s = some old) (hv : old.sameType v = true) :
    (name s).write B σ v = some (σ.set s v) := by
  have hwrite : (name s).write B σ v = (σ s).bind _ := rfl
  rw [hwrite, h]
  exact if_pos hv

theorem Expr.write_field_of {selector : String} (h : e.eval B σ = some old)
    (hnew : old.update selector v = some new) :
    (field e selector).write B σ v = e.write B σ new := by
  have hwrite : (field e selector).write B σ v = (e.eval B σ).bind _ := rfl
  rw [hwrite, h, Option.bind_some, hnew]
  rfl

theorem Expr.write_element_of (h : e.eval B σ = some old) (hi : i.eval B σ = some place)
    (hnew : old.setItem place v = some new) :
    (element e i).write B σ v = e.write B σ new := by
  have hwrite : (element e i).write B σ v = (e.eval B σ).bind _ := rfl
  rw [hwrite, h, Option.bind_some, hi, Option.bind_eq_bind, Option.bind_some, hnew]
  rfl

end Write

/-! ## Statements -/

/-- What a statement leads to: the store behind it, or the end of the fragment. -/
inductive Outcome (K : Type) where
  | running (σ : Store K)
  | discarded

/-- The outcome of a statement. -/
def Line.exec (B : Builtins K) (σ : Store K) : Line → Option (Outcome K)
  | assign target value => do return .running (← target.write B σ (← value.eval B σ))
  | discardIf condition => do
    match ← condition.eval B σ with
    | .bools [b] => some (if b then .discarded else .running σ)
    | _ => none
  | closeMain => some (.running σ)
  | _ => none

theorem Line.exec_assign_of {B : Builtins K} {σ σ' : Store K} {target value : Expr} {v : Value K}
    (hv : value.eval B σ = some v) (hwrite : target.write B σ v = some σ') :
    (assign target value).exec B σ = some (.running σ') := by
  have hexec : (assign target value).exec B σ = (value.eval B σ).bind _ := rfl
  rw [hexec, hv, Option.bind_some, hwrite]
  rfl

theorem Line.exec_discardIf_of {B : Builtins K} {σ : Store K} {condition : Expr} {b : Bool}
    (h : condition.eval B σ = some (.bools [b])) :
    (discardIf condition).exec B σ = some (if b then .discarded else .running σ) :=
  congrArg (Option.bind · _) h

/-- The outcome of statements one after the other. -/
def execLines (B : Builtins K) : Store K → List Line → Option (Outcome K)
  | σ, [] => some (.running σ)
  | σ, l :: ls => do
    match ← l.exec B σ with
    | .running σ => execLines B σ ls
    | .discarded => some .discarded

end ShaderAssembly.Glsl
