import ShaderAssembly.Glsl.Instruction
import ShaderAssembly.Proofs.Generation.Name
import ShaderAssembly.Proofs.Meaning.Grammar
import ShaderAssembly.Proofs.Meaning.Shader
/-!
# What texts of expressions denote

* `Denotes`: the tokens of an expression can be read as it at a level, and it has a value;
* one rule for each form of an expression, and one for each function that shaders call;
* **`Denotes.call`**: a call denotes what its function gives.
-/

namespace ShaderAssembly.Glsl

variable {K : Type} [Field K] [LinearOrder K]

/-- The tokens of an expression can be read as it, and it has a value. -/
structure Denotes (B : Builtins K) (σ : Store K) (l : Level) (e : Expr) (v : Value K) : Prop where
  reads : Reads l e.tokens e
  eval : e.eval B σ = some v

namespace Denotes

variable {B : Builtins K} {σ : Store K} {l k : Level} {e i a b c d : Expr} {va vb vc vd v : Value K}

/-! ## Forms -/

theorem of_eq (h : Denotes B σ l e va) (hv : va = v) : Denotes B σ l e v := hv ▸ h

theorem looser (h : Denotes B σ l e v) (hl : l.rank ≤ k.rank) : Denotes B σ k e v :=
  ⟨.looser h.reads hl, h.eval⟩

/-- An operand may stand anywhere. -/
theorem anywhere (h : Denotes B σ .operand e v) : Denotes B σ k e v :=
  h.looser (Nat.zero_le k.rank)

/-- Anything may stand for an expression. -/
theorem expression (h : Denotes B σ l e v) : Denotes B σ .expression e v :=
  h.looser (by cases l <;> decide)

theorem number {x : Single} (h : x.isFinite = true) :
    Denotes B σ .expression (.number x) (.reals [x.value]) := by
  refine ⟨.looser (.number x h) ?_, rfl⟩
  cases x with
  | nan | infinite => cases h
  | finite negative m e => cases negative <;> simp [numberLevel, Level.rank]

theorem whole (n : Nat) : Denotes B σ .operand (.whole n) (.int n) := ⟨.whole n, rfl⟩

theorem name {n : String} (hn : isName n = true) (ht : typeNames.contains n = false)
    (h : σ n = some v) : Denotes B σ .operand (.name n) v := ⟨.name n hn ht, h⟩

theorem field {selector : String} (hs : isName selector = true) (h : Denotes B σ .operand e va)
    (hv : va.select selector = some v) : Denotes B σ .operand (.field e selector) v := by
  refine ⟨.field selector h.reads hs, ?_⟩
  rw [Expr.eval_field, h.eval]
  exact hv

theorem element (h : Denotes B σ .operand e va) (hi : Denotes B σ .expression i vb)
    (hv : va.item vb = some v) : Denotes B σ .operand (.element e i) v := by
  refine ⟨.element h.reads hi.reads, ?_⟩
  rw [Expr.eval_element, h.eval, hi.eval]
  exact hv

theorem negative {cs : List K} (h : Denotes B σ .unary e (.reals cs)) :
    Denotes B σ .unary (.negative e) (.reals (cs.map (- ·))) :=
  ⟨.negative h.reads, Expr.eval_negative_of h.eval⟩

theorem group (h : Denotes B σ .expression e v) : Denotes B σ .operand (.group e) v :=
  ⟨.group h.reads, by rw [Expr.eval_group, h.eval]⟩

theorem binary (op : Operator) (ha : Denotes B σ op.level a va) (hb : Denotes B σ op.right b vb)
    (hv : op.apply va vb = some v) : Denotes B σ op.level (.binary op a b) v := by
  refine ⟨.binary op ha.reads hb.reads, ?_⟩
  rw [Expr.eval_binary, ha.eval, hb.eval]
  exact hv

theorem choose {t : Bool} (hc : Denotes B σ .comparison c (.bools [t]))
    (ha : Denotes B σ .expression a va) (hb : Denotes B σ .expression b vb)
    (hv : va.sameType vb = true) :
    Denotes B σ .expression (.choose c a b) (if t then va else vb) := by
  refine ⟨.choose hc.reads ha.reads hb.reads, ?_⟩
  rw [Expr.eval_choose_of hc.eval ha.eval hb.eval, if_pos hv]

/-! ## Calls -/

/-- A function is called by its name. -/
theorem call_name {f : Function} (hf : f ∈ Function.all) (args : List (Value K)) :
    call B f.name args = f.apply B args := by
  rw [call, Function.ofName?_name hf]
  rfl

theorem isName_function {f : Function} (hf : f ∈ Function.all) : isName f.name = true := by
  revert f
  decide +kernel

variable {f : Function}

theorem call1 (ha : Denotes B σ .expression a va) (hv : f.apply B [va] = some v)
    (hf : f ∈ Function.all) : Denotes B σ .operand (.call1 f.name a) v := by
  refine ⟨.call1 _ (isName_function hf) ha.reads, ?_⟩
  rw [Expr.eval_call1, ha.eval]
  exact (call_name hf _).trans hv

theorem call2 (ha : Denotes B σ .expression a va) (hb : Denotes B σ .expression b vb)
    (hv : f.apply B [va, vb] = some v) (hf : f ∈ Function.all) :
    Denotes B σ .operand (.call2 f.name a b) v := by
  refine ⟨.call2 _ (isName_function hf) ha.reads hb.reads, ?_⟩
  rw [Expr.eval_call2, ha.eval, hb.eval]
  exact (call_name hf _).trans hv

theorem call3 (ha : Denotes B σ .expression a va) (hb : Denotes B σ .expression b vb)
    (hc : Denotes B σ .expression c vc) (hv : f.apply B [va, vb, vc] = some v)
    (hf : f ∈ Function.all) : Denotes B σ .operand (.call3 f.name a b c) v := by
  refine ⟨.call3 _ (isName_function hf) ha.reads hb.reads hc.reads, ?_⟩
  rw [Expr.eval_call3, ha.eval, hb.eval, hc.eval]
  exact (call_name hf _).trans hv

theorem call4 (ha : Denotes B σ .expression a va) (hb : Denotes B σ .expression b vb)
    (hc : Denotes B σ .expression c vc) (hd : Denotes B σ .expression d vd)
    (hv : f.apply B [va, vb, vc, vd] = some v) (hf : f ∈ Function.all) :
    Denotes B σ .operand (.call4 f.name a b c d) v := by
  refine ⟨.call4 _ (isName_function hf) ha.reads hb.reads hc.reads hd.reads, ?_⟩
  rw [Expr.eval_call4, ha.eval, hb.eval, hc.eval, hd.eval]
  exact (call_name hf _).trans hv

end Denotes

/-! ## Selections -/

theorem mapM_some {α β : Type} {f : α → Option β} {g : α → β} {as : List α}
    (h : ∀ a ∈ as, f a = some (g a)) : as.mapM f = some (as.map g) := by
  induction as with
  | nil => rfl
  | cons a as ih =>
    rw [List.mapM_cons, h a List.mem_cons_self, ih fun b hb => h b (List.mem_cons_of_mem _ hb)]
    rfl

theorem components?_text (cs : List Component) : Value.components? (Component.text cs) = some cs := by
  have hletter (c : Component) : Component.ofLetter? true c.letter = some c := by cases c <;> decide
  rw [Value.components?, Component.text, String.toList_ofList]
  induction cs with
  | nil => rfl
  | cons c cs ih =>
    rw [List.map_cons, List.mapM_cons, hletter, ih]
    rfl

omit [Field K] [LinearOrder K] in
/-- The components of a vector that a selector names. -/
theorem select_vec4 (v : Vec4 K) (cs : List Component) :
    (Value.vec4 v).select (Component.text cs) = some (.reals (cs.map v)) := by
  have hitems : cs.mapM (fun c => v.toList[c.index]?) = some (cs.map v) :=
    mapM_some fun c _ => v.toList_getElem? c
  have hlength : ¬ v.toList.length < 2 := by simp [Vec4.toList]
  simp only [Value.select, Value.vec4, components?_text, hlength, if_false]
  simp only [Option.bind_eq_bind, Option.bind_some, hitems]
  rfl

theorem isName_components {cs : List Component} (h : cs ≠ []) :
    isName (Component.text cs) = true := by
  have hword := isBuiltIn_components h
  simp only [isBuiltIn, Bool.and_eq_true] at hword
  cases cs with
  | nil => exact absurd rfl h
  | cons c cs =>
    have hletter : startsNumber (Component.text (c :: cs)) = false := by
      rw [startsNumber, Component.text, String.toList_ofList]
      cases c <;> rfl
    rw [isName, hword.1.1, hletter]
    rfl

namespace Denotes

variable {B : Builtins K} {σ : Store K} {l : Level} {e a b c d : Expr} {u v w : Vec4 K}
  {x y z t : K}

/-- Some components of a vector. -/
theorem selection (cs : List Component) (hcs : cs ≠ []) (h : Denotes B σ .operand e (.vec4 v)) :
    Denotes B σ .operand (.field e (Component.text cs)) (.reals (cs.map v)) :=
  field (isName_components hcs) h (select_vec4 v cs)

theorem component (k : Component) (h : Denotes B σ .operand e (.vec4 v)) :
    Denotes B σ .operand (.field e (Component.text [k])) (.reals [v k]) :=
  selection [k] (by simp) h

/-! ## Zero and one -/

theorem zero : Denotes B σ .operand .zero (.reals [0]) := by
  refine ⟨.number (Single.zero false) rfl, ?_⟩
  rw [Expr.zero, Expr.eval_number, Single.value_zero]

theorem one [IsStrictOrderedRing K] : Denotes B σ .operand .one (.reals [1]) := by
  refine ⟨.looser (.number Single.one (by decide)) (by decide), ?_⟩
  rw [Expr.one, Expr.eval_number, Single.value_one]

/-! ## Vectors -/

theorem vector (ha : Denotes B σ .expression a (.reals [x]))
    (hb : Denotes B σ .expression b (.reals [y])) (hc : Denotes B σ .expression c (.reals [z]))
    (hd : Denotes B σ .expression d (.reals [t])) :
    Denotes B σ .operand (.vector a b c d) (.vec4 (.of x y z t)) :=
  .call4 (f := .vec4) ha hb hc hd rfl (by decide)

theorem scalarVector [IsStrictOrderedRing K] (h : Denotes B σ .expression e (.reals [x])) :
    Denotes B σ .operand (scalarVector e) (.vec4 (.of x 0 0 1)) :=
  .vector h (.anywhere .zero) (.anywhere .zero) (.anywhere .one)

theorem zeroVector : Denotes B σ .operand .zeroVector (.vec4 fun _ => 0) :=
  .call1 (f := .vec4) (.anywhere .zero) rfl (by decide)

theorem spread (h : Denotes B σ .expression e (.reals [x])) :
    Denotes B σ .operand (spread e) (.vec4 fun _ => x) :=
  .call1 (f := .vec4) h rfl (by decide)

theorem xyz (h : Denotes B σ .operand e (.vec4 v)) :
    Denotes B σ .operand (xyz e) (.reals [v .x, v .y, v .z]) :=
  h.selection [.x, .y, .z] (by simp)

end Denotes

end ShaderAssembly.Glsl
