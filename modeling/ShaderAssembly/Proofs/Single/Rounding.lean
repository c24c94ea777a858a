import Mathlib.Algebra.Order.Field.Power
import Mathlib.Tactic.FieldSimp
import Mathlib.Tactic.Linarith
import Mathlib.Tactic.NormNum
import Mathlib.Tactic.Positivity
import Mathlib.Tactic.Ring
import ShaderAssembly.Single
/-!
# Rounding

Quotients and decimals are rounded to the nearest number.

* `Single.Rounds`: the number with a sign that is nearest to a magnitude, with an even significand if
  two are as near; an infinity from half a step above the greatest finite number on;
* `Single.roundQuotient_nearest`: the whole number nearest to a quotient;
* `Single.isNearest_of_step`: the multiple of a step nearest to `x` is the number nearest to `x`, if
  the step is the one of the numbers around `x`;
* **`Single.ofQuotient_rounds`**, **`Single.ofDecimal_rounds`**: quotients and decimals are rounded.
-/

namespace ShaderAssembly.Single

/-! ## What rounding means -/

/-- A finite number may have this significand and this exponent. -/
structure IsBinary (m : Nat) (e : Int) : Prop where
  bound : m < 0x1000000
  least : leastExponent ≤ e
  greatest : e ≤ greatestExponent
  full : e = leastExponent ∨ 0x800000 ≤ m

/-- Half a step above the greatest finite number. -/
def overflow : ℚ := 0x1FFFFFF * 2 ^ 103

/-- No finite number is nearer to `x` than `m * 2 ^ e`, and if another one is as near, `m` is even. -/
def IsNearest (x : ℚ) (m : Nat) (e : Int) : Prop :=
  ∀ m' e', IsBinary m' e' → |(m : ℚ) * 2 ^ e - x| ≤ |(m' : ℚ) * 2 ^ e' - x| ∧
    (|(m' : ℚ) * 2 ^ e' - x| = |(m : ℚ) * 2 ^ e - x| → (m' : ℚ) * 2 ^ e' = m * 2 ^ e ∨ m % 2 = 0)

/-- The number is the magnitude `x` with a sign, rounded. -/
inductive Rounds (negative : Bool) (x : ℚ) : Single → Prop
  | finite {m : Nat} {e : Int} : x < overflow → IsBinary m e → IsNearest x m e →
    Rounds negative x (.finite negative m e)
  | infinite : overflow ≤ x → Rounds negative x (.infinite negative)

theorem Rounds.negate {negative : Bool} {x : ℚ} {v : Single} (h : Rounds negative x v) :
    Rounds (!negative) x v.negate := by
  cases h with
  | finite hx hbinary hnearest => exact .finite hx hbinary hnearest
  | infinite hx => exact .infinite hx

theorem Rounds.isFinite_iff {negative : Bool} {x : ℚ} {v : Single} (h : Rounds negative x v) :
    v.isFinite = true ↔ x < overflow := by
  cases h with
  | finite hx => exact iff_of_true rfl hx
  | infinite hx => exact iff_of_false nofun (not_lt.2 hx)

/-! ## Whole numbers -/

/-- `m` is the whole number nearest to `y`, the even one of two. -/
structure IsWhole (y : ℚ) (m : Nat) : Prop where
  near : |(m : ℚ) - y| ≤ 1 / 2
  even : |(m : ℚ) - y| = 1 / 2 → m % 2 = 0

/-- No other whole number is nearer, and one is as near only if both are a half away. -/
theorem IsWhole.nearest {y : ℚ} {m : Nat} (h : IsWhole y m) (k : Nat) :
    |(m : ℚ) - y| ≤ |(k : ℚ) - y| ∧ (|(k : ℚ) - y| = |(m : ℚ) - y| → k = m ∨ m % 2 = 0) := by
  by_cases hk : k = m
  · subst hk
    exact ⟨le_rfl, fun _ => .inl rfl⟩
  have hapart : (1 : ℚ) ≤ |(k : ℚ) - m| := by
    have hint : (1 : ℤ) ≤ |(k : ℤ) - m| := Int.one_le_abs (by omega)
    exact_mod_cast hint
  have htriangle : |(k : ℚ) - m| ≤ |(k : ℚ) - y| + |(m : ℚ) - y| := by
    have := abs_sub_le (k : ℚ) y m
    rwa [abs_sub_comm y] at this
  have hnear := h.near
  exact ⟨by linarith, fun heq => .inr (h.even (by linarith))⟩

theorem roundQuotient_nearest (n : Nat) {d : Nat} (hd : 0 < d) :
    IsWhole ((n : ℚ) / d) (roundQuotient n d) := by
  suffices h : _ ∧ _ from ⟨h.1, h.2⟩
  have hd' : (0 : ℚ) < d := by exact_mod_cast hd
  have hquotient : (n : ℚ) / d = (n / d : Nat) + (n % d : Nat) / d := by
    rw [div_eq_iff hd'.ne', add_mul, div_mul_cancel₀ _ hd'.ne']
    exact_mod_cast (Nat.div_add_mod' n d).symm
  have hlow : (0 : ℚ) ≤ (n % d : Nat) / d := by positivity
  have hhigh : ((n % d : Nat) : ℚ) / d < 1 := by
    rw [div_lt_one hd']
    exact_mod_cast Nat.mod_lt n hd
  unfold roundQuotient
  dsimp only
  rw [hquotient]
  split
  case isTrue hless =>
    have hpart : ((n % d : Nat) : ℚ) / d < 1 / 2 := by
      rw [div_lt_iff₀ hd']
      have : (2 : ℚ) * (n % d : Nat) < d := by exact_mod_cast hless
      linarith
    rw [show ((n / d : Nat) : ℚ) - ((n / d : Nat) + (n % d : Nat) / d) = -((n % d : Nat) / d) by ring,
      abs_neg, abs_of_nonneg hlow]
    exact ⟨hpart.le, fun h => absurd h hpart.ne⟩
  split
  case isFalse.isTrue hmore =>
    have hpart : 1 / 2 < ((n % d : Nat) : ℚ) / d := by
      rw [lt_div_iff₀ hd']
      have : (d : ℚ) < 2 * (n % d : Nat) := by exact_mod_cast hmore
      linarith
    rw [show (((n / d + 1 : Nat) : ℚ)) - ((n / d : Nat) + (n % d : Nat) / d) =
      1 - (n % d : Nat) / d by push_cast; ring, abs_of_nonneg (by linarith)]
    exact ⟨by linarith, fun h => by linarith⟩
  have hpart : ((n % d : Nat) : ℚ) / d = 1 / 2 := by
    have h : 2 * (n % d) = d := by omega
    rw [div_eq_iff hd'.ne']
    have : (2 : ℚ) * (n % d : Nat) = d := by exact_mod_cast h
    linarith
  rw [hpart]
  split
  case isTrue heven =>
    rw [show ((n / d : Nat) : ℚ) - ((n / d : Nat) + 1 / 2) = -(1 / 2) by ring, abs_neg,
      abs_of_nonneg (by norm_num)]
    exact ⟨le_rfl, fun _ => heven⟩
  case isFalse hodd =>
    rw [show (((n / d + 1 : Nat) : ℚ)) - ((n / d : Nat) + 1 / 2) = 1 / 2 by push_cast; ring,
      abs_of_nonneg (by norm_num)]
    exact ⟨le_rfl, fun _ => by omega⟩

/-! ## Powers of two -/

theorem scale_pos (n : Nat) {d : Nat} (hd : 0 < d) (e : Int) : 0 < (scale n d e).2 := by
  unfold scale
  split
  · exact hd
  · exact Nat.mul_pos hd (Nat.pow_pos (by decide))

theorem scale_ratio (n d : Nat) (e : Int) :
    ((scale n d e).1 : ℚ) / (scale n d e).2 = n / d * 2 ^ e := by
  unfold scale
  split
  case isTrue he =>
    lift e to ℕ using he
    simp only [Int.toNat_natCast, Nat.pow_eq, zpow_natCast]
    push_cast
    ring
  case isFalse he =>
    obtain ⟨k, rfl⟩ : ∃ k : ℕ, e = -k := ⟨(-e).toNat, by omega⟩
    simp only [neg_neg, Int.toNat_natCast, Nat.pow_eq, zpow_neg, zpow_natCast]
    push_cast
    rw [div_mul_eq_div_div, div_eq_mul_inv (_ / _)]

theorem pow_log2_le {n : Nat} (hn : 0 < n) : (2 : ℚ) ^ (n.log2 : ℤ) ≤ n := by
  rw [zpow_natCast]
  exact_mod_cast Nat.log2_self_le hn.ne'

theorem lt_pow_log2 (n : Nat) : (n : ℚ) < 2 ^ ((n.log2 : ℤ) + 1) := by
  have h : n < 2 ^ (n.log2 + 1) := Nat.lt_log2_self
  exact_mod_cast h

/-- The binade of a quotient: the power of two at most the quotient, but more than half of it. -/
theorem binade_spec {n d : Nat} (hn : 0 < n) (hd : 0 < d) :
    (2 : ℚ) ^ binade n d ≤ n / d ∧ (n : ℚ) / d < 2 ^ (binade n d + 1) := by
  have hd' : (0 : ℚ) < d := by exact_mod_cast hd
  have htwo : (2 : ℚ) ≠ 0 := two_ne_zero
  have hbelow : (2 : ℚ) ^ ((n.log2 : ℤ) - d.log2 - 1) ≤ n / d := by
    rw [le_div_iff₀ hd']
    calc (2 : ℚ) ^ ((n.log2 : ℤ) - d.log2 - 1) * d
        ≤ 2 ^ ((n.log2 : ℤ) - d.log2 - 1) * 2 ^ ((d.log2 : ℤ) + 1) :=
          mul_le_mul_of_nonneg_left (lt_pow_log2 d).le (by positivity)
      _ = 2 ^ (n.log2 : ℤ) := by rw [← zpow_add₀ htwo]; congr 1; ring
      _ ≤ n := pow_log2_le hn
  have habove : (n : ℚ) / d < 2 ^ ((n.log2 : ℤ) - d.log2 + 1) := by
    rw [div_lt_iff₀ hd']
    calc (n : ℚ) < 2 ^ ((n.log2 : ℤ) + 1) := lt_pow_log2 n
      _ = 2 ^ ((n.log2 : ℤ) - d.log2 + 1) * 2 ^ (d.log2 : ℤ) := by
          rw [← zpow_add₀ htwo]; congr 1; ring
      _ ≤ _ := mul_le_mul_of_nonneg_left (pow_log2_le hd) (by positivity)
  have hscale := scale_ratio n d (-((n.log2 : ℤ) - d.log2))
  have hpos : (0 : ℚ) < (scale n d (-((n.log2 : ℤ) - d.log2))).2 := by
    exact_mod_cast scale_pos n hd _
  rw [zpow_neg, ← div_eq_mul_inv] at hscale
  unfold binade
  dsimp only
  split
  case isTrue hle =>
    refine ⟨?_, habove⟩
    have h : (1 : ℚ) ≤ (scale n d (-((n.log2 : ℤ) - d.log2))).1 /
        (scale n d (-((n.log2 : ℤ) - d.log2))).2 := by
      rw [one_le_div hpos]
      exact_mod_cast hle
    rwa [hscale, one_le_div (by positivity)] at h
  case isFalse hlt =>
    refine ⟨hbelow, ?_⟩
    have h : ((scale n d (-((n.log2 : ℤ) - d.log2))).1 : ℚ) /
        (scale n d (-((n.log2 : ℤ) - d.log2))).2 < 1 := by
      rw [div_lt_one hpos]
      exact_mod_cast not_le.1 hlt
    rwa [hscale, div_lt_one (by positivity), ← sub_add_cancel ((n.log2 : ℤ) - d.log2) 1] at h

/-! ## Numbers near a magnitude -/

/-- The numbers next to a magnitude of at least `2 ^ 23` steps are whole multiples of the step; so
are all numbers, if the step is the least one. -/
theorem isNearest_of_step {y : ℚ} {m : Nat} {e : Int} (hm : IsWhole y m)
    (hstep : e = leastExponent ∨ 0x800000 ≤ y) : IsNearest (y * 2 ^ e) m e := by
  have hpos : (0 : ℚ) < 2 ^ e := by positivity
  have hdistance : ∀ z : ℚ, |z * 2 ^ e - y * 2 ^ e| = |z - y| * 2 ^ e := fun z => by
    rw [← sub_mul, abs_mul, abs_of_pos hpos]
  intro m' e' hbinary
  have hunits : (m' : ℚ) * 2 ^ e' = m' * 2 ^ (e' - e) * 2 ^ e := by
    rw [mul_assoc, ← zpow_add₀ two_ne_zero, sub_add_cancel]
  rw [hunits, hdistance, hdistance]
  by_cases hexponent : e ≤ e'
  · -- A multiple of a greater power is a multiple of the step.
    obtain ⟨j, hj⟩ : ∃ j : ℕ, e' - e = j := ⟨(e' - e).toNat, by omega⟩
    rw [hj, zpow_natCast, show (m' : ℚ) * 2 ^ j = (m' * 2 ^ j : ℕ) by push_cast; ring]
    obtain ⟨hless, hsame⟩ := hm.nearest (m' * 2 ^ j)
    refine ⟨mul_le_mul_of_nonneg_right hless hpos.le, fun heq => ?_⟩
    exact (hsame (mul_right_cancel₀ hpos.ne' heq)).imp_left fun h => by rw [h]
  · -- A number with a lesser power is below `2 ^ 23` steps, which are no nearer than `m` steps.
    have hlarge : (0x800000 : ℚ) ≤ y :=
      hstep.resolve_left (by have := hbinary.least; omega)
    have hsmall : (m' : ℚ) * 2 ^ (e' - e) < 0x800000 := by
      calc (m' : ℚ) * 2 ^ (e' - e) ≤ m' * 2 ^ (-1 : ℤ) :=
            mul_le_mul_of_nonneg_left (zpow_le_zpow_right₀ one_le_two (by omega)) (by positivity)
        _ < 0x1000000 * 2 ^ (-1 : ℤ) := by
            refine mul_lt_mul_of_pos_right ?_ (by positivity)
            exact_mod_cast hbinary.bound
        _ = 0x800000 := by norm_num
    have hnear : |(m : ℚ) - y| ≤ y - 0x800000 := by
      refine (hm.nearest 0x800000).1.trans_eq ?_
      rw [abs_sub_comm]
      exact abs_of_nonneg (by push_cast; linarith)
    have hfar : |(m : ℚ) - y| < |m' * 2 ^ (e' - e) - y| := by
      calc |(m : ℚ) - y| ≤ y - 0x800000 := hnear
        _ < y - m' * 2 ^ (e' - e) := by linarith
        _ ≤ |y - m' * 2 ^ (e' - e)| := le_abs_self _
        _ = _ := abs_sub_comm _ _
    exact ⟨mul_le_mul_of_nonneg_right hfar.le hpos.le,
      fun heq => absurd (mul_right_cancel₀ hpos.ne' heq) hfar.ne'⟩

theorem IsNearest.carry {x : ℚ} {e : Int} (h : IsNearest x 0x1000000 e) :
    IsNearest x 0x800000 (e + 1) := by
  have hvalue : ((0x800000 : ℕ) : ℚ) * 2 ^ (e + 1) = (0x1000000 : ℕ) * 2 ^ e := by
    rw [zpow_add_one₀ two_ne_zero]
    push_cast
    ring
  intro m' e' hbinary
  rw [hvalue]
  exact ⟨(h m' e' hbinary).1, fun _ => .inr (by decide)⟩

theorem rounds_zero (negative : Bool) {x : ℚ} (hx : 0 ≤ x) (hless : x ≤ 2 ^ (-150 : ℤ)) :
    Rounds negative x (zero negative) := by
  have hstep : (2 : ℚ) ^ (-150 : ℤ) = 1 / 2 * 2 ^ leastExponent := by
    rw [leastExponent, one_div, ← zpow_neg_one, ← zpow_add₀ two_ne_zero]
    norm_num
  have hpos : (0 : ℚ) < 2 ^ leastExponent := by positivity
  have hunits : x = x / 2 ^ leastExponent * 2 ^ leastExponent := (div_mul_cancel₀ _ hpos.ne').symm
  refine .finite (hless.trans_lt (by norm_num [overflow]))
    ⟨by decide, le_rfl, by decide, .inl rfl⟩ ?_
  rw [hunits]
  refine isNearest_of_step ⟨?_, fun _ => rfl⟩ (.inl rfl)
  rw [Nat.cast_zero, zero_sub, abs_neg, abs_of_nonneg (by positivity), div_le_iff₀ hpos, ← hstep]
  exact hless

/-! ## Quotients and decimals -/

theorem mul_zpow_le {c y : ℚ} {k e : Int} (hy : c ≤ y) (hpos : 0 ≤ y) (he : k ≤ e) :
    c * 2 ^ k ≤ y * 2 ^ e :=
  mul_le_mul hy (zpow_le_zpow_right₀ one_le_two he) (by positivity) hpos

theorem mul_zpow_lt {y c : ℚ} {e k : Int} (hy : y < c) (hpos : 0 ≤ c) (he : e ≤ k) :
    y * 2 ^ e < c * 2 ^ k :=
  (mul_lt_mul_of_pos_right hy (by positivity)).trans_le (mul_zpow_le le_rfl hpos he)

/-- Half a step above the greatest significand is a tie, and that significand is odd. -/
theorem IsWhole.lt_of_lt {y : ℚ} {m : Nat} (hm : IsWhole y m) (h : m < 0x1000000) :
    y < 0x1000000 - 1 / 2 := by
  have hnear := abs_le.1 hm.near
  have hmost : (m : ℚ) + 1 ≤ 0x1000000 := by exact_mod_cast h
  refine lt_of_le_of_ne (by linarith) fun heq => ?_
  have hodd : (m : ℚ) = 0xFFFFFF := by linarith
  have heven := hm.even (by rw [hodd, heq]; norm_num)
  have : m = 0xFFFFFF := by exact_mod_cast hodd
  omega

/-- A significand and an exponent that round a magnitude of `y` steps, before the carry. -/
theorem rounds_of_step (negative : Bool) {y : ℚ} {m : Nat} {e : Int} (hm : IsWhole y m)
    (hleast : leastExponent ≤ e) (hstep : e = leastExponent ∨ 0x800000 ≤ y)
    (hbound : y < 0x1000000) :
    Rounds negative (y * 2 ^ e)
      (let (m, e) := if m = 0x1000000 then (0x800000, e + 1) else (m, e)
       if greatestExponent < e then .infinite negative else .finite negative m e) := by
  have hnear := abs_le.1 hm.near
  have hnearest := isNearest_of_step hm hstep
  have hmost : m ≤ 0x1000000 := by
    by_contra h
    have : (0x1000001 : ℚ) ≤ m := by exact_mod_cast not_le.1 h
    linarith
  have hfull : e = leastExponent ∨ 0x800000 ≤ m := hstep.imp_right fun h => by
    by_contra hlt
    have : (m : ℚ) + 1 ≤ 0x800000 := by exact_mod_cast not_le.1 hlt
    linarith
  have hoverflow : overflow = (0x1000000 - 1 / 2) * 2 ^ greatestExponent := by
    norm_num [overflow, greatestExponent]
  by_cases hcarry : m = 0x1000000
  case pos =>
    subst hcarry
    rw [if_pos rfl]
    push_cast at hnear
    dsimp only
    split
    case isTrue hgreat =>
      refine .infinite ?_
      rw [hoverflow]
      exact mul_zpow_le (by linarith) (by linarith) (by omega)
    case isFalse hgreat =>
      have hless : e ≤ 103 := by
        rw [greatestExponent] at hgreat
        omega
      refine .finite ?_ ⟨by decide, by omega, by omega, .inr le_rfl⟩ hnearest.carry
      exact (mul_zpow_lt hbound (by norm_num) hless).trans (by norm_num [overflow])
  case neg =>
    rw [if_neg hcarry]
    dsimp only
    split
    case isTrue hgreat =>
      rw [greatestExponent] at hgreat
      have hlarge : (0x800000 : ℚ) ≤ y := hstep.resolve_left (by rw [leastExponent]; omega)
      refine .infinite ?_
      calc overflow ≤ 0x800000 * 2 ^ (105 : ℤ) := by norm_num [overflow]
        _ ≤ y * 2 ^ e := mul_zpow_le hlarge (by linarith) (by omega)
    case isFalse hgreat =>
      refine .finite ?_ ⟨by omega, hleast, by omega, hfull⟩ hnearest
      rw [hoverflow]
      exact mul_zpow_lt (hm.lt_of_lt (by omega)) (by norm_num) (by omega)

/-- **A quotient is rounded to the nearest number.** -/
theorem ofQuotient_rounds (negative : Bool) (n : Nat) {d : Nat} (hd : 0 < d) :
    Rounds negative (n / d) (ofQuotient negative n d) := by
  unfold ofQuotient
  split
  case isTrue hn =>
    subst hn
    rw [Nat.cast_zero, zero_div]
    exact rounds_zero negative le_rfl (by positivity)
  case isFalse hn =>
    obtain ⟨hbelow, habove⟩ := binade_spec (Nat.pos_of_ne_zero hn) hd
    dsimp only
    generalize he : max leastExponent (binade n d - 23) = e
    have hpos : (0 : ℚ) < 2 ^ e := by positivity
    have hinverse : (2 : ℚ) ^ (-e) * 2 ^ e = 1 := by
      rw [← zpow_add₀ two_ne_zero, neg_add_cancel, zpow_zero]
    have hwhole := roundQuotient_nearest (scale n d (-e)).1 (scale_pos n hd (-e))
    rw [scale_ratio] at hwhole
    have hunits : (n : ℚ) / d = n / d * 2 ^ (-e) * 2 ^ e := by rw [mul_assoc, hinverse, mul_one]
    rw [hunits]
    refine rounds_of_step negative hwhole (by omega) ?_ ?_
    · by_cases hleast : e = leastExponent
      · exact .inl hleast
      refine .inr (le_of_mul_le_mul_right ?_ hpos)
      rw [← hunits]
      calc (0x800000 : ℚ) * 2 ^ e = 2 ^ (binade n d) := by
            rw [show (0x800000 : ℚ) = 2 ^ (23 : ℤ) by norm_num, ← zpow_add₀ two_ne_zero]
            congr 1
            omega
        _ ≤ n / d := hbelow
    · refine lt_of_mul_lt_mul_right ?_ hpos.le
      rw [← hunits]
      calc (n : ℚ) / d < 2 ^ (binade n d + 1) := habove
        _ ≤ 2 ^ (24 + e) := zpow_le_zpow_right₀ one_le_two (by omega)
        _ = 0x1000000 * 2 ^ e := by rw [zpow_add₀ two_ne_zero]; norm_num

/-- **A decimal is rounded to the nearest number**, however great or small its exponent is. -/
theorem ofDecimal_rounds (negative : Bool) (digits : Nat) (exponent : Int) :
    Rounds negative (digits * 10 ^ exponent) (ofDecimal negative digits exponent) := by
  unfold ofDecimal
  split
  case isTrue hzero =>
    subst hzero
    rw [Nat.cast_zero, zero_mul]
    exact rounds_zero negative le_rfl (by positivity)
  case isFalse hzero =>
  have hdigits : (1 : ℚ) ≤ digits := by exact_mod_cast Nat.one_le_iff_ne_zero.2 hzero
  split
  case isTrue hgreat =>
    refine .infinite ?_
    calc overflow ≤ 1 * 10 ^ (61 : ℤ) := by norm_num [overflow]
      _ ≤ digits * 10 ^ exponent := mul_le_mul hdigits
          (zpow_le_zpow_right₀ (by norm_num) (by omega)) (by positivity) (by linarith)
  split
  case isFalse.isTrue hless =>
    refine rounds_zero negative (by positivity) ?_
    have hten : (10 : ℚ) ^ exponent ≤ 2 ^ (-(digits.log2 : ℤ) - 151) := by
      obtain ⟨k, rfl⟩ : ∃ k : ℕ, exponent = -k := ⟨(-exponent).toNat, by omega⟩
      calc (10 : ℚ) ^ (-(k : ℤ)) ≤ 8 ^ (-(k : ℤ)) := by
            rw [zpow_neg, zpow_neg, zpow_natCast, zpow_natCast]
            exact inv_anti₀ (by positivity) (pow_le_pow_left₀ (by norm_num) (by norm_num) k)
        _ = 2 ^ (3 * -(k : ℤ)) := by rw [zpow_mul]; norm_num
        _ ≤ _ := zpow_le_zpow_right₀ one_le_two (by omega)
    calc (digits : ℚ) * 10 ^ exponent
        ≤ 2 ^ ((digits.log2 : ℤ) + 1) * 2 ^ (-(digits.log2 : ℤ) - 151) :=
          mul_le_mul (lt_pow_log2 digits).le hten (by positivity) (by positivity)
      _ = 2 ^ (-150 : ℤ) := by rw [← zpow_add₀ two_ne_zero]; congr 1; ring
  split
  case isFalse.isFalse.isTrue hnonneg =>
    have h := ofQuotient_rounds negative (digits * Nat.pow 10 exponent.toNat) Nat.one_pos
    lift exponent to ℕ using hnonneg
    rw [Nat.cast_one, div_one, Nat.cast_mul, Int.toNat_natCast, Nat.pow_eq, Nat.cast_pow] at h
    exact_mod_cast h
  case isFalse.isFalse.isFalse hneg =>
    have h := ofQuotient_rounds negative digits (d := Nat.pow 10 (-exponent).toNat)
      (Nat.pow_pos (by decide))
    obtain ⟨k, rfl⟩ : ∃ k : ℕ, exponent = -k := ⟨(-exponent).toNat, by omega⟩
    rw [neg_neg, Int.toNat_natCast, Nat.pow_eq, Nat.cast_pow] at h
    rw [neg_neg, Int.toNat_natCast, zpow_neg, zpow_natCast, ← div_eq_mul_inv]
    exact_mod_cast h

end ShaderAssembly.Single
