import ShaderAssembly.Proofs.Meaning.Storage
/-!
# Operands in a shader

* `constant_denotes`, `input_denotes`, `register_denotes`: registers denote what they hold;
* **`vectorSource_denotes`**, **`scalarSource_denotes`**, **`extended_denotes`**: sources denote
  what instructions read.
-/

namespace ShaderAssembly.Glsl

variable {K : Type} [Field K] [LinearOrder K] {B : Builtins K} {σ : Store K}

/-! ## Names -/

theorem Denotes.builtIn (rest : String) (hrest : rest.toList.all isNameChar = true) {v : Value K}
    (h : σ ("gl_" ++ rest) = some v) : Denotes B σ .operand (.name ("gl_" ++ rest)) v := by
  have hbuiltIn := isBuiltIn_gl hrest
  simp only [isBuiltIn, Bool.and_eq_true, Bool.not_eq_true'] at hbuiltIn
  have hstart : startsNumber ("gl_" ++ rest) = false := by
    rw [startsNumber, String.toList_append]
    rfl
  refine .name ?_ hbuiltIn.1.2 h
  rw [isName, hbuiltIn.1.1, hstart]
  rfl

theorem Denotes.generated {n : String} (hn : isGeneratedName n) {v : Value K} (h : σ n = some v) :
    Denotes B σ .operand (.name n) v := by
  refine .name ?_ (typeNames_of_isGenerated hn.2) h
  rw [isName, hn.1, startsNumber_of_isGenerated hn.2]
  rfl

/-! ## Vectors -/

section Vectors

theorem constant_denotes {v : Vector4} (h : v.IsFinite) :
    Denotes B σ .operand (constant v) (.vec4 fun k => (v.at k).value) := by
  have hv : ∀ x ∈ [v.x, v.y, v.z, v.w], x.isFinite = true := h
  exact .vector (.number (hv v.x (by simp))) (.number (hv v.y (by simp)))
    (.number (hv v.z (by simp))) (.number (hv v.w (by simp)))

variable [IsStrictOrderedRing K]

theorem input_denotes {v : Vec4 K} {b : InputBinding} (h : HoldsAttribute σ v b) :
    Denotes B σ .operand (input b) (.vec4 v) := by
  have color (set : ColorSet) (hset : σ (inputColorName set) = some (.vec4 v)) :
      Denotes B σ .operand (inputColor set) (.vec4 v) := by
    cases set with
    | primary => exact .builtIn "Color" (by decide) hset
    | secondary => exact .builtIn "SecondaryColor" (by decide) hset
  cases b with
  | vertexPosition => exact .builtIn "Vertex" (by decide) h
  | vertexNormal =>
    obtain ⟨x, y, z, hnormal, rfl⟩ := h
    exact .call2 (f := .vec4) (.anywhere (.builtIn "Normal" (by decide) hnormal))
      (.anywhere .one) rfl (by decide)
  | vertexColor set => exact color set h
  | vertexFogCoord =>
    obtain ⟨x, hfog, rfl⟩ := h
    exact .scalarVector (.anywhere (.builtIn "FogCoord" (by decide) hfog))
  | vertexTexCoord n =>
    exact .builtIn _ (all_isNameChar_of_isWord (isWord_append_toString (by decide) n)) h
  | fragmentColor set => exact color set h
  | fragmentTexCoord n =>
    obtain ⟨size, items, hitems, hn, rfl⟩ := h
    refine .element (.builtIn "TexCoord" (by decide) hitems) (.anywhere (.whole n)) ?_
    simp [Value.item, hn]
  | fragmentFogCoord =>
    obtain ⟨x, hfog, rfl⟩ := h
    exact .scalarVector (.anywhere (.builtIn "FogFragCoord" (by decide) hfog))
  | fragmentPosition => exact .builtIn "FragCoord" (by decide) h

end Vectors

/-! ## Registers -/

variable {m : Model} {limits : Limits} {M : Machine K}

theorem relativePlace_denotes (hm : m.WellFormed limits) (hM : Represents m M σ) {addr : Nat}
    (ha : kindAt m.vars addr = some .address) (offset : Int) :
    Denotes B σ .expression (relativePlace m addr offset) (.int (M.addresses addr + offset)) := by
  have base : Denotes B σ .operand (.field (.name (variableName m addr)) "x")
      (.int (M.addresses addr)) :=
    .field (by decide) (.generated (variableName_spec hm addr) (hM.vars addr _ ha)) rfl
  unfold relativePlace
  dsimp only
  split
  · rename_i hzero
    rw [hzero, add_zero]
    exact base.anywhere
  split
  · rename_i hzero hneg
    have hint : (offset.natAbs : Int) = -offset := by omega
    refine .expression (.binary .sub base.anywhere (.anywhere (.whole _)) ?_)
    rw [hint]
    simp [Operator.apply]
  · have hint : (offset.natAbs : Int) = offset := by omega
    refine .expression (.binary .add base.anywhere (.anywhere (.whole _)) ?_)
    rw [hint]
    rfl

variable [IsStrictOrderedRing K]

theorem readVariable_denotes (hm : m.WellFormed limits) (hM : Represents m M σ) {i : Nat}
    {k : VariableKind} (hk : kindAt m.vars i = some k) (hv : k.isVector = true) :
    Yields (readVariable m i) fun e => Denotes B σ .operand e (.vec4 (M.read m (.whole i))) := by
  refine (variableAt_yields hk).bind fun v e => ?_
  rw [e]
  have named (hheld : σ (variableName m i) = some (.vec4 (M.vectors i)))
      (hread : M.read m (.whole i) = M.vectors i) :
      Denotes B σ .operand (.name (variableName m i)) (.vec4 (M.read m (.whole i))) := by
    rw [hread]
    exact .generated (variableName_spec hm i) hheld
  cases k with
  | input b =>
    have hread : M.read m (.whole i) = M.attributes b := by rw [Machine.read, hk]
    rw [hread]
    exact .of_ok (input_denotes (hM.attributes i b hk))
  | temporary => exact .of_ok (named (hM.vars i _ hk) (by rw [Machine.read, hk]))
  | param b => exact .of_ok (named (hM.vars i _ hk) (by rw [Machine.read, hk]))
  | address | paramArray items | output b => cases hv

/-- **A register denotes what it holds.** -/
theorem register_denotes (hm : m.WellFormed limits) (hM : Represents m M σ) {r : Register}
    (hr : r.WellFormed m.kind m.vars) (hrange : M.InRange m r) :
    Yields (register m r) fun e => Denotes B σ .operand e (.vec4 (M.read m r)) := by
  cases r with
  | whole i =>
    obtain ⟨k, hk, hv⟩ := hr
    exact readVariable_denotes hm hM hk hv
  | element i n =>
    obtain ⟨items, hi, hn⟩ := hr
    have array : Denotes B σ .operand (.name (variableName m i)) _ :=
      .generated (variableName_spec hm i) (hM.vars i _ hi)
    refine .of_ok (.element array (.anywhere (.whole n)) ?_)
    simp [Value.item, hn, Machine.read]
  | relative i addr offset =>
    obtain ⟨-, -, ha, -⟩ := hr
    obtain ⟨items, hi, hlow, hhigh⟩ := hrange
    have array : Denotes B σ .operand (.name (variableName m i)) _ :=
      .generated (variableName_spec hm i) (hM.vars i _ hi)
    refine .of_ok (.element array (relativePlace_denotes hm hM ha offset) ?_)
    exact if_pos ⟨hlow, hhigh⟩
  | literal v => exact .of_ok (constant_denotes hr)

/-! ## Sources -/

omit [IsStrictOrderedRing K] in
/-- A sign before an expression changes the sign of all its numbers. -/
theorem signed_denotes {e : Expr} {cs : List K} (negate : Bool)
    (h : Denotes B σ .operand e (.reals cs)) :
    Denotes B σ .operand (signed negate e) (.reals (cs.map (withSign negate))) := by
  cases negate with
  | false =>
    have hid : cs.map (withSign false) = cs := List.map_id' cs
    rw [hid]
    exact h
  | true => exact .group (.expression (.negative h.anywhere))

/-- **A source denotes the register's value, swizzled and then negated.** -/
theorem vectorSource_denotes (hm : m.WellFormed limits) (hM : Represents m M σ) {s : Source}
    (hr : s.register.WellFormed m.kind m.vars) (hrange : M.InRange m s.register) :
    Yields (vectorSource m s) fun e => Denotes B σ .operand e (.vec4 (s.vector M m)) := by
  refine (register_denotes (B := B) hm hM hr hrange).bind fun e he => .of_ok ?_
  split
  · rename_i hswizzle
    have hvector : Value.vec4 (s.vector M m) =
        .reals ((M.read m s.register).toList.map (withSign s.negate)) := by
      unfold Source.vector
      rw [hswizzle]
      rfl
    rw [hvector]
    exact signed_denotes s.negate he
  · exact signed_denotes s.negate (he.selection s.swizzle.toList (by simp [Swizzle.toList]))

/-- **A scalar source denotes the first component of its swizzle, negated.** -/
theorem scalarSource_denotes (hm : m.WellFormed limits) (hM : Represents m M σ) {s : Source}
    (hr : s.register.WellFormed m.kind m.vars) (hrange : M.InRange m s.register) :
    Yields (scalarSource m s) fun e => Denotes B σ .operand e (.reals [s.scalar M m]) :=
  (register_denotes hm hM hr hrange).bind fun _ he =>
    .of_ok (signed_denotes s.negate (he.component s.swizzle.first))

theorem selection_denotes {base : Expr} {v : Vec4 K} (hbase : Denotes B σ .operand base (.vec4 v))
    (negate : Bool) (place : SignedSelection) :
    Denotes B σ .expression (selection negate base place)
      (.reals [withSign (place.negate != negate) (place.select.pick v)]) := by
  have signs {e : Expr} {x : K} (he : Denotes B σ .unary e (.reals [x])) :
      Denotes B σ .expression (if place.negate != negate then .negative e else e)
        (.reals [withSign (place.negate != negate) x]) := by
    cases place.negate != negate with
    | false => exact he.expression
    | true => exact .expression (.negative he)
  unfold selection
  dsimp only
  cases place.select with
  | zero =>
    have hzero : withSign (place.negate != negate) (0 : K) = 0 := by
      unfold withSign
      split
      · exact neg_zero
      · rfl
    rw [Selection.pick, hzero]
    exact .anywhere .zero
  | one => exact signs (.anywhere .one)
  | component k => exact signs (hbase.component k).anywhere

/-- **An extended swizzle denotes zero, one or a component in each place, with its sign.** -/
theorem extended_denotes (hm : m.WellFormed limits) (hM : Represents m M σ) {s : Source}
    (hr : s.register.WellFormed m.kind m.vars) (hrange : M.InRange m s.register)
    (e : ExtendedSwizzle) :
    Yields (extended m e s) fun x => Denotes B σ .operand x (.vec4 (s.extended M m e)) :=
  (register_denotes hm hM hr hrange).bind fun _ hb => .of_ok <|
    .vector (selection_denotes hb s.negate e.x) (selection_denotes hb s.negate e.y)
      (selection_denotes hb s.negate e.z) (selection_denotes hb s.negate e.w)

end ShaderAssembly.Glsl
