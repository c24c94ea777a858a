import Mathlib.Tactic.Ring
import ShaderAssembly.Proofs.Meaning.Operand
/-!
# What instructions compute in a shader

* `vector_denotes`, `scalar_denotes`: the operands of an instruction;
* `plainTexture_denotes`, `projectedTexture_denotes`, `biasedTexture_denotes`: textures;
* **`value_denotes`**: the value of an instruction denotes what its defining equation gives.
-/

namespace ShaderAssembly.Glsl

variable {K : Type} [Field K] [LinearOrder K] {B : Builtins K} {σ : Store K} {m : Model}
  {limits : Limits} {M : Machine K} {i : Instruction}

/-! ## Operands -/

section Operands

theorem source_spec (hi : i.WellFormed limits m) {n : Nat} (hn : n < i.opcode.shape.sources) :
    ∃ s ∈ i.sources, i.sources[n]? = some s ∧ sourceAt i n = .ok s := by
  rw [← hi.sources_length] at hn
  have hsource : i.sources[n]? = some i.sources[n] := List.getElem?_eq_getElem hn
  refine ⟨i.sources[n], List.getElem_mem hn, hsource, ?_⟩
  rw [sourceAt, hsource]

variable [IsStrictOrderedRing K]

theorem vector_denotes (hm : m.WellFormed limits) (hM : Represents m M σ)
    (hi : i.WellFormed limits m) (hrange : ∀ s ∈ i.sources, M.InRange m s.register) {n : Nat}
    (hn : n < i.opcode.shape.sources) (hscalar : i.opcode.shape.scalarSources = false) :
    Yields (operand m i n) fun e => Denotes B σ .operand e (.vec4 (i.vector M m n)) := by
  obtain ⟨s, hmem, hs, hsource⟩ := source_spec hi hn
  rw [Instruction.vector, hs, operand, hsource, hscalar]
  exact vectorSource_denotes hm hM (hi.sources s hmem).register (hrange s hmem)

theorem scalar_denotes (hm : m.WellFormed limits) (hM : Represents m M σ)
    (hi : i.WellFormed limits m) (hrange : ∀ s ∈ i.sources, M.InRange m s.register) {n : Nat}
    (hn : n < i.opcode.shape.sources) (hscalar : i.opcode.shape.scalarSources = true) :
    Yields (operand m i n) fun e => Denotes B σ .operand e (.reals [i.scalar M m n]) := by
  obtain ⟨s, hmem, hs, hsource⟩ := source_spec hi hn
  rw [Instruction.scalar, hs, operand, hsource, hscalar]
  exact scalarSource_denotes hm hM (hi.sources s hmem).register (hrange s hmem)

end Operands

/-! ## Textures -/

theorem sampler_denotes (hM : Represents m M σ) {t : TextureOperand}
    (ht : t.WellFormed limits m.samplers) :
    Denotes B σ .expression (.name (samplerName t.unit)) (.sampler t.target t.unit) :=
  .anywhere (.generated (samplerName_spec t.unit) (hM.samplers _ _ ht.2))

theorem coordinates_denotes {e : Expr} {v : Vec4 K} (target : TextureTarget)
    (h : Denotes B σ .operand e (.vec4 v)) :
    Denotes B σ .operand (.field e (textureSelector target)) (.reals (coordinates target v)) := by
  cases target with
  | tex1D => exact h.selection [.x] (by simp)
  | tex2D | rect => exact h.selection [.x, .y] (by simp)
  | tex3D | cube => exact h.selection [.x, .y, .z] (by simp)

theorem plainTexture_denotes (hM : Represents m M σ) {t : TextureOperand}
    (ht : t.WellFormed limits m.samplers) {e : Expr} {v : Vec4 K}
    (he : Denotes B σ .operand e (.vec4 v)) :
    Denotes B σ .operand (plainTexture t e)
      (.vec4 (B.texture t.target t.unit (coordinates t.target v))) := by
  have sampler := sampler_denotes (B := B) hM ht
  have coords := (coordinates_denotes t.target he).anywhere (k := .expression)
  unfold plainTexture
  cases htarget : t.target <;> rw [htarget] at sampler coords
  · exact .call2 (f := .texture .tex1D) sampler coords rfl (by decide)
  · exact .call2 (f := .texture .tex2D) sampler coords rfl (by decide)
  · exact .call2 (f := .texture .tex3D) sampler coords rfl (by decide)
  · exact .call2 (f := .texture .cube) sampler coords rfl (by decide)
  · exact .call2 (f := .texture .rect) sampler coords rfl (by decide)

theorem biasedTexture_denotes (hM : Represents m M σ) {t : TextureOperand}
    (ht : t.WellFormed limits m.samplers) (hrect : t.target ≠ .rect) {e : Expr} {v : Vec4 K}
    (he : Denotes B σ .operand e (.vec4 v)) :
    Yields (biasedTexture t e) fun x => Denotes B σ .operand x
      (.vec4 (B.textureBiased t.target t.unit (coordinates t.target v) (v .w))) := by
  have sampler := sampler_denotes (B := B) hM ht
  have coords := (coordinates_denotes t.target he).anywhere (k := .expression)
  have bias := (he.component .w).anywhere (k := .expression)
  rw [biasedTexture, if_neg hrect]
  refine .of_ok ?_
  cases htarget : t.target <;> rw [htarget] at sampler coords hrect
  · exact .call3 (f := .texture .tex1D) sampler coords bias rfl (by decide)
  · exact .call3 (f := .texture .tex2D) sampler coords bias rfl (by decide)
  · exact .call3 (f := .texture .tex3D) sampler coords bias rfl (by decide)
  · exact .call3 (f := .texture .cube) sampler coords bias rfl (by decide)
  · exact absurd rfl hrect

theorem projectedTexture_denotes (hM : Represents m M σ) {t : TextureOperand}
    (ht : t.WellFormed limits m.samplers) {e : Expr} {v : Vec4 K}
    (he : Denotes B σ .operand e (.vec4 v)) :
    Denotes B σ .operand (projectedTexture t e)
      (.vec4 (B.texture t.target t.unit (coordinates t.target fun k => v k / v .w))) := by
  have sampler := sampler_denotes (B := B) hM ht
  have coord := he.anywhere (k := .expression)
  have quotient : Denotes B σ .expression (.binary .div (.field e "xyz") (.field e "w"))
      (.reals [v .x / v .w, v .y / v .w, v .z / v .w]) :=
    .expression (.binary .div he.xyz.anywhere (he.component .w).anywhere rfl)
  have tex1D : textureFunction .tex1D ++ "Proj" = Function.name (.textureProj .tex1D) := by decide
  have tex2D : textureFunction .tex2D ++ "Proj" = Function.name (.textureProj .tex2D) := by decide
  have tex3D : textureFunction .tex3D ++ "Proj" = Function.name (.textureProj .tex3D) := by decide
  have rect : textureFunction .rect ++ "Proj" = Function.name (.textureProj .rect) := by decide
  unfold projectedTexture
  dsimp only
  cases htarget : t.target <;> rw [htarget] at sampler
  · rw [if_neg (by decide), tex1D]
    exact .call2 sampler coord rfl (by decide)
  · rw [if_neg (by decide), tex2D]
    exact .call2 sampler coord rfl (by decide)
  · rw [if_neg (by decide), tex3D]
    exact .call2 sampler coord rfl (by decide)
  · exact .call2 (f := .texture .cube) sampler quotient rfl (by decide)
  · rw [if_neg (by decide), rect]
    exact .call2 sampler coord rfl (by decide)

/-! ## Values -/

theorem comparison_denotes {f : Function} {a b : Expr} {u v : Vec4 K} {p : K → K → Prop}
    [DecidableRel p] (ha : Denotes B σ .operand a (.vec4 u)) (hb : Denotes B σ .operand b (.vec4 v))
    (hv : f.apply B [.vec4 u, .vec4 v] = some (.bools [decide (p (u .x) (v .x)),
      decide (p (u .y) (v .y)), decide (p (u .z) (v .z)), decide (p (u .w) (v .w))]))
    (hf : f ∈ Function.all) :
    Denotes B σ .operand (spread (.call2 f.name a b))
      (.vec4 fun k => if p (u k) (v k) then 1 else 0) := by
  have bools := Denotes.call2 ha.anywhere hb.anywhere hv hf
  refine .of_eq (.call1 (f := .vec4) bools.anywhere rfl (by decide)) ?_
  simp [Value.vec4, Vec4.toList]

section Products

variable {a b c : Expr} {u v w : Vec4 K}

theorem Denotes.dot3 (ha : Denotes B σ .operand a (.vec4 u)) (hb : Denotes B σ .operand b (.vec4 v)) :
    Denotes B σ .operand (.call2 "dot" (Glsl.xyz a) (Glsl.xyz b))
      (.reals [u .x * v .x + u .y * v .y + u .z * v .z]) := by
  refine .of_eq (.call2 (f := .dot) ha.xyz.anywhere hb.xyz.anywhere rfl (by decide)) ?_
  simp [add_assoc]

theorem Denotes.dot4 (ha : Denotes B σ .operand a (.vec4 u)) (hb : Denotes B σ .operand b (.vec4 v)) :
    Denotes B σ .operand (.call2 "dot" a b)
      (.reals [u .x * v .x + u .y * v .y + u .z * v .z + u .w * v .w]) := by
  refine .of_eq (.call2 (f := .dot) ha.anywhere hb.anywhere rfl (by decide)) ?_
  simp [Vec4.toList, add_assoc]

/-- Two vectors weighted by a third one, whose ones stand for the second vector. -/
theorem Denotes.mix (ha : Denotes B σ .operand a (.vec4 u)) (hb : Denotes B σ .operand b (.vec4 v))
    (hc : Denotes B σ .operand c (.vec4 w)) :
    Denotes B σ .operand (.call3 "mix" a b c) (.vec4 fun k => u k * (1 - w k) + v k * w k) :=
  .call3 (f := .mix) ha.anywhere hb.anywhere hc.anywhere rfl (by decide)

end Products

variable [IsStrictOrderedRing K]

theorem lighting_denotes {a : Expr} {v : Vec4 K} (ha : Denotes B σ .operand a (.vec4 v)) :
    Denotes B σ .operand (lightingValue a) (.vec4 (lighting B v)) := by
  have x := ha.component .x
  have y := ha.component .y
  have w := ha.component .w
  have bound : Denotes B σ .expression (.number (Single.ofNat 128)) (.reals [128]) := by
    rw [← Single.value_128]
    exact .number (by decide)
  have lower : Denotes B σ .expression (.number (Single.ofNat 128).negate) (.reals [-128]) := by
    rw [← Single.value_128, ← Single.value_negate]
    exact .number (by decide)
  have positive : Denotes B σ .operand (.group (.binary .greater (.field a "x") .zero))
      (.bools [decide (0 < v .x)]) :=
    .group (.expression (.binary .greater x.anywhere (.anywhere .zero) rfl))
  have power : Denotes B σ .operand (.call2 "pow" (.call2 "max" (.field a "y") .zero)
      (.call3 "clamp" (.field a "w") (.number (Single.ofNat 128).negate)
        (.number (Single.ofNat 128))))
      (.reals [B.pow (max (v .y) 0) (min (max (v .w) (-128)) 128)]) :=
    .call2 (f := .pow) (.anywhere (.call2 (f := .max) y.anywhere (.anywhere .zero) rfl (by decide)))
      (.anywhere (.call3 (f := .clamp) w.anywhere lower bound rfl (by decide))) rfl (by decide)
  have specular := Denotes.choose positive.anywhere power.anywhere (.anywhere .zero) rfl
  refine .vector (.anywhere .one) (.anywhere ?_) (specular.of_eq ?_) (.anywhere .one)
  · exact .call2 (f := .max) x.anywhere (.anywhere .zero) rfl (by decide)
  · by_cases h : 0 < v .x <;> simp [h]

theorem logarithm_denotes {a : Expr} {x : K} (ha : Denotes B σ .operand a (.reals [x])) :
    Denotes B σ .operand (logarithmValue a)
      (.vec4 (.of (B.floor (B.log2 |x|)) (|x| / B.exp2 (B.floor (B.log2 |x|))) (B.log2 |x|) 1)) := by
  have size : Denotes B σ .operand (.call1 "abs" a) (.reals [|x|]) :=
    .call1 (f := .abs) ha.anywhere rfl (by decide)
  have log : Denotes B σ .operand (.call1 "log2" (.call1 "abs" a)) (.reals [B.log2 |x|]) :=
    .call1 (f := .log2) size.anywhere rfl (by decide)
  have floor : Denotes B σ .operand (.call1 "floor" (.call1 "log2" (.call1 "abs" a)))
      (.reals [B.floor (B.log2 |x|)]) := .call1 (f := .floor) log.anywhere rfl (by decide)
  have rest : Denotes B σ .operand (.call1 "exp2" (.call1 "floor" (.call1 "log2" (.call1 "abs" a))))
      (.reals [B.exp2 (B.floor (B.log2 |x|))]) := .call1 (f := .exp2) floor.anywhere rfl (by decide)
  exact .vector floor.anywhere (.expression (.binary .div size.anywhere rest.anywhere rfl))
    log.anywhere (.anywhere .one)

/-- **The value of an instruction denotes what its defining equation gives.** -/
theorem value_denotes (hm : m.WellFormed limits) (hM : Represents m M σ)
    (hi : i.WellFormed limits m) (hrange : ∀ s ∈ i.sources, M.InRange m s.register)
    (hvalue : i.opcode ≠ .arl ∧ i.opcode ≠ .kil) (hrect : biasesRectangle i = false) :
    Yields (value m i) fun e => Denotes B σ .operand e (.vec4 (i.result B M m)) := by
  have vec (n : Nat) (hn : n < i.opcode.shape.sources)
      (hscalar : i.opcode.shape.scalarSources = false) :
      Yields (operand m i n) fun e => Denotes B σ .operand e (.vec4 (i.vector M m n)) :=
    vector_denotes hm hM hi hrange hn hscalar
  have num (n : Nat) (hn : n < i.opcode.shape.sources)
      (hscalar : i.opcode.shape.scalarSources = true) :
      Yields (operand m i n) fun e => Denotes B σ .operand e (.reals [i.scalar M m n]) :=
    scalar_denotes hm hM hi hrange hn hscalar
  unfold value Instruction.result
  dsimp only
  generalize hop : i.opcode = op at vec num ⊢
  cases op with
  | arl => exact absurd hop hvalue.1
  | kil => exact absurd hop hvalue.2
  | mov => exact vec 0 (by decide) rfl
  | abs =>
    refine (vec 0 (by decide) rfl).bind fun a ha => .of_ok ?_
    exact .call1 (f := .abs) ha.anywhere rfl (by decide)
  | flr =>
    refine (vec 0 (by decide) rfl).bind fun a ha => .of_ok ?_
    exact .call1 (f := .floor) ha.anywhere rfl (by decide)
  | frc =>
    refine (vec 0 (by decide) rfl).bind fun a ha => .of_ok ?_
    exact .call1 (f := .fract) ha.anywhere rfl (by decide)
  | cos =>
    refine (num 0 (by decide) rfl).bind fun a ha => .of_ok ?_
    exact .spread (.anywhere (.call1 (f := .cos) ha.anywhere rfl (by decide)))
  | sin =>
    refine (num 0 (by decide) rfl).bind fun a ha => .of_ok ?_
    exact .spread (.anywhere (.call1 (f := .sin) ha.anywhere rfl (by decide)))
  | ex2 =>
    refine (num 0 (by decide) rfl).bind fun a ha => .of_ok ?_
    exact .spread (.anywhere (.call1 (f := .exp2) ha.anywhere rfl (by decide)))
  | lg2 =>
    refine (num 0 (by decide) rfl).bind fun a ha => .of_ok ?_
    exact .spread (.anywhere (.call1 (f := .log2) ha.anywhere rfl (by decide)))
  | rcp =>
    refine (num 0 (by decide) rfl).bind fun a ha => .of_ok ?_
    exact .spread (.expression (.binary .div (.anywhere .one) ha.anywhere rfl))
  | rsq =>
    refine (num 0 (by decide) rfl).bind fun a ha => .of_ok ?_
    have size : Denotes B σ .operand (.call1 "abs" a) (.reals [|i.scalar M m 0|]) :=
      .call1 (f := .abs) ha.anywhere rfl (by decide)
    exact .spread (.anywhere (.call1 (f := .inversesqrt) size.anywhere rfl (by decide)))
  | pow =>
    refine (num 0 (by decide) rfl).bind₂ (num 1 (by decide) rfl) fun a b ha hb => .of_ok ?_
    exact .spread (.anywhere (.call2 (f := .pow) ha.anywhere hb.anywhere rfl (by decide)))
  | scs =>
    refine (num 0 (by decide) rfl).bind fun a ha => .of_ok ?_
    exact .vector (.anywhere (.call1 (f := .cos) ha.anywhere rfl (by decide)))
      (.anywhere (.call1 (f := .sin) ha.anywhere rfl (by decide))) (.anywhere .zero) (.anywhere .zero)
  | exp =>
    refine (num 0 (by decide) rfl).bind fun a ha => .of_ok ?_
    have floor : Denotes B σ .operand (.call1 "floor" a) (.reals [B.floor (i.scalar M m 0)]) :=
      .call1 (f := .floor) ha.anywhere rfl (by decide)
    exact .vector (.anywhere (.call1 (f := .exp2) floor.anywhere rfl (by decide)))
      (.anywhere (.call1 (f := .fract) ha.anywhere rfl (by decide)))
      (.anywhere (.call1 (f := .exp2) ha.anywhere rfl (by decide))) (.anywhere .one)
  | log =>
    refine (num 0 (by decide) rfl).bind fun a ha => .of_ok ?_
    exact logarithm_denotes ha
  | lit =>
    refine (vec 0 (by decide) rfl).bind fun a ha => .of_ok ?_
    exact lighting_denotes ha
  | add =>
    refine (vec 0 (by decide) rfl).bind₂ (vec 1 (by decide) rfl) fun a b ha hb => .of_ok ?_
    exact .group (.expression (.binary .add ha.anywhere hb.anywhere rfl))
  | sub =>
    refine (vec 0 (by decide) rfl).bind₂ (vec 1 (by decide) rfl) fun a b ha hb => .of_ok ?_
    exact .group (.expression (.binary .sub ha.anywhere hb.anywhere rfl))
  | mul =>
    refine (vec 0 (by decide) rfl).bind₂ (vec 1 (by decide) rfl) fun a b ha hb => .of_ok ?_
    exact .group (.expression (.binary .mul ha.anywhere hb.anywhere rfl))
  | mad =>
    refine (vec 0 (by decide) rfl).bind₂ (vec 1 (by decide) rfl) fun a b ha hb => ?_
    refine (vec 2 (by decide) rfl).bind fun c hc => .of_ok ?_
    have product : Denotes B σ .product (.binary .mul a b)
        (.vec4 fun k => i.vector M m 0 k * i.vector M m 1 k) :=
      .binary .mul ha.anywhere hb.anywhere rfl
    exact .group (.expression (.binary .add (product.looser (by decide)) hc.anywhere rfl))
  | max =>
    refine (vec 0 (by decide) rfl).bind₂ (vec 1 (by decide) rfl) fun a b ha hb => .of_ok ?_
    exact .call2 (f := .max) ha.anywhere hb.anywhere rfl (by decide)
  | min =>
    refine (vec 0 (by decide) rfl).bind₂ (vec 1 (by decide) rfl) fun a b ha hb => .of_ok ?_
    exact .call2 (f := .min) ha.anywhere hb.anywhere rfl (by decide)
  | sge =>
    refine (vec 0 (by decide) rfl).bind₂ (vec 1 (by decide) rfl) fun a b ha hb => .of_ok ?_
    exact comparison_denotes (f := .greaterThanEqual) (p := fun x y => y ≤ x) ha hb rfl (by decide)
  | slt =>
    refine (vec 0 (by decide) rfl).bind₂ (vec 1 (by decide) rfl) fun a b ha hb => .of_ok ?_
    exact comparison_denotes (f := .lessThan) (p := (· < ·)) ha hb rfl (by decide)
  | cmp =>
    refine (vec 2 (by decide) rfl).bind₂ (vec 1 (by decide) rfl) fun c b hc hb => ?_
    refine (vec 0 (by decide) rfl).bind fun a ha => .of_ok ?_
    have negative := comparison_denotes (f := .lessThan) (p := (· < ·)) ha .zeroVector rfl
      (by decide)
    refine .of_eq (.mix hc hb negative) (congrArg Value.vec4 (funext fun k => ?_))
    by_cases h : i.vector M m 0 k < 0 <;> simp [h]
  | lrp =>
    refine (vec 2 (by decide) rfl).bind₂ (vec 1 (by decide) rfl) fun c b hc hb => ?_
    refine (vec 0 (by decide) rfl).bind fun a ha => .of_ok ?_
    refine .of_eq (.mix hc hb ha) (congrArg Value.vec4 (funext fun k => ?_))
    ring
  | dp3 =>
    refine (vec 0 (by decide) rfl).bind₂ (vec 1 (by decide) rfl) fun a b ha hb => .of_ok ?_
    exact .spread (ha.dot3 hb).anywhere
  | dp4 =>
    refine (vec 0 (by decide) rfl).bind₂ (vec 1 (by decide) rfl) fun a b ha hb => .of_ok ?_
    exact .spread (ha.dot4 hb).anywhere
  | dph =>
    refine (vec 1 (by decide) rfl).bind₂ (vec 0 (by decide) rfl) fun b a hb ha => .of_ok ?_
    exact .spread (.expression (.binary .add (ha.dot3 hb).anywhere (hb.component .w).anywhere rfl))
  | dst =>
    refine (vec 0 (by decide) rfl).bind₂ (vec 1 (by decide) rfl) fun a b ha hb => .of_ok ?_
    have product : Denotes B σ .product (.binary .mul (.field a "y") (.field b "y"))
        (.reals [i.vector M m 0 .y * i.vector M m 1 .y]) :=
      .binary .mul (ha.component .y).anywhere (hb.component .y).anywhere rfl
    exact .vector (.anywhere .one) product.expression (ha.component .z).anywhere
      (hb.component .w).anywhere
  | xpd =>
    refine (vec 0 (by decide) rfl).bind₂ (vec 1 (by decide) rfl) fun a b ha hb => .of_ok ?_
    have cross := Denotes.call2 (f := .cross) ha.xyz.anywhere hb.xyz.anywhere rfl (by decide)
    exact .call2 (f := .vec4) cross.anywhere (.anywhere .zero) rfl (by decide)
  | swz =>
    obtain ⟨s, hmem, hfirst, hsource⟩ := source_spec hi (n := 0) (by rw [hop]; decide)
    obtain ⟨e, he⟩ := Option.isSome_iff_exists.1 (hi.extended_isSome.trans (by rw [hop]; rfl))
    dsimp only
    rw [he, hfirst]
    dsimp only
    rw [hsource]
    exact extended_denotes hm hM (hi.sources s hmem).register (hrange s hmem) e
  | tex =>
    refine (textureOf_yields hi (by rw [hop]; decide)).bind fun t ht => ?_
    refine (vec 0 (by decide) rfl).bind fun a ha => .of_ok ?_
    dsimp only
    rw [ht.1]
    exact plainTexture_denotes hM ht.2 ha
  | txb =>
    refine (textureOf_yields hi (by rw [hop]; decide)).bind fun t ht => ?_
    have hne : t.target ≠ .rect := by simpa [biasesRectangle, hop, ht.1] using hrect
    refine (vec 0 (by decide) rfl).bind fun a ha => ?_
    dsimp only
    rw [ht.1]
    exact biasedTexture_denotes hM ht.2 hne ha
  | txp =>
    refine (textureOf_yields hi (by rw [hop]; decide)).bind fun t ht => ?_
    refine (vec 0 (by decide) rfl).bind fun a ha => .of_ok ?_
    dsimp only
    rw [ht.1]
    exact projectedTexture_denotes hM ht.2 ha

end ShaderAssembly.Glsl
