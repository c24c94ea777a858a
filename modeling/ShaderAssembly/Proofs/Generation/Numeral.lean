import ShaderAssembly.Proofs.Generation.Scope
/-!
# Numbers in a shader

* `isNumeralChar`: digits, points, signs and exponent letters;
* `toText_numeral`: a finite number is written with them alone;
* **`plain_of_mem_number`**: none of its tokens is a type or has to be declared.
-/

namespace ShaderAssembly.Glsl

/-- The characters of a finite number. -/
def isNumeralChar (c : Char) : Bool := c.isDigit || c == '.' || c == '-' || c == 'e'

theorem isNumeralChar_of_mem_toDigits {n : Nat} {c : Char} (h : c ∈ Nat.toDigits 10 n) :
    isNumeralChar c = true := by
  simp [isNumeralChar, Nat.isDigit_of_mem_toDigits (by decide) (by decide) h]

theorem isNumeralChar_of_mem_toString {x : Int} {c : Char} (h : c ∈ (toString x).toList) :
    isNumeralChar c = true := by
  cases x with
  | ofNat n =>
    have h' : c ∈ (Nat.repr n).toList := h
    exact isNumeralChar_of_mem_toDigits (by simpa using h')
  | negSucc n =>
    have h' : c ∈ ("-" ++ Nat.repr (n + 1)).toList := h
    rw [String.toList_append, List.mem_append] at h'
    rcases h' with h' | h'
    · rw [List.mem_singleton.1 h']
      decide
    · exact isNumeralChar_of_mem_toDigits (by simpa using h')

theorem decimalText_numeral (d : Nat) (p : Int) :
    ∀ c ∈ (Single.decimalText d p).toList, isNumeralChar c = true := by
  have digits : ∀ c ∈ Nat.toDigits 10 d, isNumeralChar c = true :=
    fun c => isNumeralChar_of_mem_toDigits
  have zeros (n : Nat) : ∀ c ∈ List.replicate n '0', isNumeralChar c = true := fun c hc => by
    rw [(List.mem_replicate.1 hc).2]
    decide
  have point : isNumeralChar '.' = true := by decide
  have zero : isNumeralChar '0' = true := by decide
  intro c hc
  unfold Single.decimalText at hc
  dsimp only at hc
  split at hc
  · split at hc
    · rw [String.toList_ofList] at hc
      simp only [List.mem_append, List.mem_cons, List.not_mem_nil, or_false] at hc
      rcases hc with (hc | hc) | rfl | rfl
      · exact digits c hc
      · exact zeros _ c hc
      · exact point
      · exact zero
    split at hc
    · rw [String.toList_ofList] at hc
      simp only [List.mem_append, List.mem_singleton] at hc
      rcases hc with (hc | rfl) | hc
      · exact digits c (List.mem_of_mem_take hc)
      · exact point
      · exact digits c (List.mem_of_mem_drop hc)
    · rw [String.toList_ofList] at hc
      simp only [List.mem_append, List.mem_cons, List.not_mem_nil, or_false] at hc
      rcases hc with ((rfl | rfl) | hc) | hc
      · exact zero
      · exact point
      · exact zeros _ c hc
      · exact digits c hc
  · rw [String.toList_append, String.toList_ofList] at hc
    simp only [List.mem_append, List.mem_singleton] at hc
    rcases hc with ((hc | hc) | rfl) | hc
    · exact digits c (List.mem_of_mem_take hc)
    · split at hc
      · exact absurd hc List.not_mem_nil
      · rcases List.mem_cons.1 hc with rfl | hc
        · exact point
        · exact digits c (List.mem_of_mem_drop hc)
    · decide
    · exact isNumeralChar_of_mem_toString hc

theorem toText_numeral {v : Single} (h : v.isFinite = true) :
    ∀ c ∈ v.toText.toList, isNumeralChar c = true := by
  cases v with
  | nan => cases h
  | infinite negative => cases h
  | finite negative m e =>
    have size : ∀ c ∈ (if m = 0 then "0.0" else
        Single.decimalText (Single.shortest m e).1 (Single.shortest m e).2).toList,
        isNumeralChar c = true := by
      split
      · have hzero : "0.0".toList.all isNumeralChar = true := by decide
        exact List.all_eq_true.1 hzero
      · exact decimalText_numeral _ _
    intro c hc
    simp only [Single.toText] at hc
    split at hc
    · rw [String.toList_append, List.mem_append] at hc
      rcases hc with hc | hc
      · rw [List.mem_singleton.1 hc]
        decide
      · exact size c hc
    · exact size c hc

/-! ## Tokens -/

theorem mem_of_mem_lexFrom {word cs : List Char} {t : String} (h : t ∈ lexFrom word cs) :
    ∀ c ∈ t.toList, c ∈ word ∨ c ∈ cs := by
  induction cs generalizing word with
  | nil =>
    intro c hc
    unfold lexFrom wordToken at h
    split at h
    · exact absurd h List.not_mem_nil
    · rw [List.mem_singleton.1 h, String.toList_ofList] at hc
      exact .inl hc
  | cons d ds ih =>
    intro c hc
    unfold lexFrom at h
    split at h
    · rcases ih h c hc with hw | hd
      · rcases List.mem_append.1 hw with hw | hw
        · exact .inl hw
        · exact .inr (by simp [List.mem_singleton.1 hw])
      · exact .inr (List.mem_cons_of_mem _ hd)
    · rcases List.mem_append.1 h with h | h
      · unfold wordToken at h
        split at h
        · exact absurd h List.not_mem_nil
        · rw [List.mem_singleton.1 h, String.toList_ofList] at hc
          exact .inl hc
      rcases List.mem_append.1 h with h | h
      · unfold signToken at h
        split at h
        · exact absurd h List.not_mem_nil
        · rw [List.mem_singleton.1 h, String.toList_singleton] at hc
          exact .inr (by simp [List.mem_singleton.1 hc])
      · rcases ih h c hc with hw | hd
        · exact absurd hw List.not_mem_nil
        · exact .inr (List.mem_cons_of_mem _ hd)

/-- **The tokens of a finite number are neither types nor have they to be declared.** -/
theorem plain_of_mem_number {v : Single} (h : v.isFinite = true) {t : String}
    (ht : t ∈ lex v.toText) : typeNames.contains t = false ∧ needsDeclaration t = false := by
  have hchars : t.toList.all isNumeralChar = true := by
    rw [List.all_eq_true]
    intro c hc
    rcases mem_of_mem_lexFrom ht c hc with hw | hd
    · exact absurd hw List.not_mem_nil
    · exact toText_numeral h c hd
  have other {word : String} (hw : word.toList.all isNumeralChar = false) : t ≠ word := by
    rintro rfl
    rw [hchars] at hw
    cases hw
  have hgen : isGenerated t = false := by
    refine Bool.eq_false_iff.2 fun hp => ?_
    have hmem := (List.isPrefixOf_iff_prefix.1 hp).subset (by decide : 'a' ∈ "arb_".toList)
    exact absurd (List.all_eq_true.1 hchars 'a' hmem) (by decide)
  constructor
  · have hne : ∀ t ∈ typeNames, t.toList.all isNumeralChar = false := by decide
    refine Bool.eq_false_iff.2 fun hc => ?_
    exact other (hne _ (List.contains_iff_mem.1 hc)) rfl
  · rw [needsDeclaration, hgen, beq_eq_false_iff_ne.2 (other (by decide))]
    rfl

end ShaderAssembly.Glsl
