import Mathlib.Algebra.Order.Field.Power
import Mathlib.Data.Int.Log
import Mathlib.Data.Rat.Floor
import Mathlib.Tactic.Positivity
import Mathlib.Tactic.Ring
import TagFormula.Number.Binary64

/-!
# The double nearest to a fraction

The double nearest to a fraction is that of its value: numerator and denominator may be
multiplied by the same number (`nearest_mul_right`). For the exponent this is seen from
the binary logarithm of the value (`exponentOf_eq`), which the estimate by the lengths of
the two numbers misses by one at most; the rounded quotient is immediate.

The number that a finite magnitude denotes is a fraction with its own significand and
exponent, so nothing is rounded and the nearest double is the magnitude itself
(`nearest_ratio`).
-/

namespace TagFormula.Binary64

/-! ## The value of a fraction alone counts -/

theorem log_eq_of_zpow {r : ℚ} {k : Int} (hlow : (2 : ℚ) ^ k ≤ r) (hhigh : r < 2 ^ (k + 1)) :
    Int.log 2 r = k := by
  have hr : 0 < r := lt_of_lt_of_le (by positivity) hlow
  have h₀ : k ≤ Int.log 2 r := (Int.zpow_le_iff_le_log one_lt_two hr).1 (by exact_mod_cast hlow)
  have h₁ : Int.log 2 r < k + 1 :=
    (Int.lt_zpow_iff_log_lt one_lt_two hr).1 (by exact_mod_cast hhigh)
  omega

/-- A fraction compared with a power of two, without fractions. -/
theorem zpow_le_div_iff (num : Nat) {den : Nat} (hden : 0 < den) (l : Int) :
    (2 : ℚ) ^ l ≤ num / den ↔
      if 0 ≤ l then den <<< l.toNat ≤ num else den ≤ num <<< (-l).toNat := by
  have hden' : (0 : ℚ) < den := Nat.cast_pos.2 hden
  obtain ⟨k, rfl | rfl⟩ := l.eq_nat_or_neg
  · rw [le_div_iff₀ hden', zpow_natCast, if_pos (Int.natCast_nonneg k), Int.toNat_natCast,
      Nat.shiftLeft_eq, mul_comm]
    exact_mod_cast Iff.rfl
  · have hpow : (0 : ℚ) < 2 ^ k := by positivity
    rw [zpow_neg, zpow_natCast, le_div_iff₀ hden', ← div_eq_inv_mul, div_le_iff₀ hpow]
    split
    · obtain rfl : k = 0 := by omega
      simp
    · rw [neg_neg, Int.toNat_natCast, Nat.shiftLeft_eq]
      exact_mod_cast Iff.rfl

/-- The lengths of two numbers give the logarithm of their quotient up to one. -/
theorem div_bounds {num den : Nat} (hnum : 0 < num) (hden : 0 < den) :
    (2 : ℚ) ^ ((num.log2 : Int) - den.log2 - 1) ≤ num / den ∧
      (num / den : ℚ) < 2 ^ ((num.log2 : Int) - den.log2 + 1) := by
  have hden' : (0 : ℚ) < den := Nat.cast_pos.2 hden
  have hnumLow : (2 : ℚ) ^ num.log2 ≤ num := by exact_mod_cast Nat.log2_self_le hnum.ne'
  have hnumHigh : (num : ℚ) < 2 ^ (num.log2 + 1) := by exact_mod_cast Nat.lt_log2_self
  have hdenLow : (2 : ℚ) ^ den.log2 ≤ den := by exact_mod_cast Nat.log2_self_le hden.ne'
  have hdenHigh : (den : ℚ) < 2 ^ (den.log2 + 1) := by exact_mod_cast Nat.lt_log2_self
  constructor
  · have hpow : (2 : ℚ) ^ ((num.log2 : Int) - den.log2 - 1) * 2 ^ (den.log2 + 1) =
        2 ^ num.log2 := by
      rw [← zpow_natCast, ← zpow_natCast, ← zpow_add₀ two_ne_zero]
      congr 1
      push_cast
      ring
    rw [le_div_iff₀ hden']
    calc (2 : ℚ) ^ ((num.log2 : Int) - den.log2 - 1) * den
        ≤ 2 ^ ((num.log2 : Int) - den.log2 - 1) * 2 ^ (den.log2 + 1) := by gcongr
      _ = 2 ^ num.log2 := hpow
      _ ≤ num := hnumLow
  · have hpow : (2 : ℚ) ^ ((num.log2 : Int) - den.log2 + 1) * 2 ^ den.log2 =
        2 ^ (num.log2 + 1) := by
      rw [← zpow_natCast, ← zpow_natCast, ← zpow_add₀ two_ne_zero]
      congr 1
      push_cast
      ring
    rw [div_lt_iff₀ hden']
    calc (num : ℚ) < 2 ^ (num.log2 + 1) := hnumHigh
      _ = 2 ^ ((num.log2 : Int) - den.log2 + 1) * 2 ^ den.log2 := hpow.symm
      _ ≤ 2 ^ ((num.log2 : Int) - den.log2 + 1) * den := by gcongr

theorem exponentOf_eq {num den : Nat} (hnum : 0 < num) (hden : 0 < den) :
    exponentOf num den = max (-1074) (Int.log 2 (num / den : ℚ) - 52) := by
  obtain ⟨hlow, hhigh⟩ := div_bounds hnum hden
  have hreached := zpow_le_div_iff num hden ((num.log2 : Int) - den.log2)
  unfold exponentOf
  dsimp only
  by_cases h : (2 : ℚ) ^ ((num.log2 : Int) - den.log2) ≤ num / den
  · rw [if_pos (hreached.1 h), log_eq_of_zpow h hhigh]
  · have hless : (num / den : ℚ) < 2 ^ ((num.log2 : Int) - den.log2 - 1 + 1) := by
      rw [sub_add_cancel]
      exact not_le.1 h
    rw [if_neg (mt hreached.2 h), log_eq_of_zpow hlow hless]
    omega

theorem roundedQuotient_mul_right (num den : Nat) {k : Nat} (hk : 0 < k) :
    roundedQuotient (num * k) (den * k) = roundedQuotient num den := by
  have hless (a b : Nat) : 2 * (a * k) < b * k ↔ 2 * a < b := by
    rw [← Nat.mul_assoc, Nat.mul_lt_mul_right hk]
  have hmore (a b : Nat) : b * k < 2 * (a * k) ↔ b < 2 * a := by
    rw [← Nat.mul_assoc, Nat.mul_lt_mul_right hk]
  simp only [roundedQuotient, Nat.mul_div_mul_right _ _ hk, Nat.mul_mod_mul_right, hless, hmore]

/-- Both parts of a fraction may be multiplied by the same number. -/
theorem nearest_mul_right (num den : Nat) {k : Nat} (hden : 0 < den) (hk : 0 < k) :
    nearest (num * k) (den * k) = nearest num den := by
  rcases Nat.eq_zero_or_pos num with rfl | hnum
  · simp [nearest]
  · have hexponent : exponentOf (num * k) (den * k) = exponentOf num den := by
      have hk' : (k : ℚ) ≠ 0 := Nat.cast_ne_zero.2 hk.ne'
      rw [exponentOf_eq (Nat.mul_pos hnum hk) (Nat.mul_pos hden hk), exponentOf_eq hnum hden]
      push_cast
      rw [mul_div_mul_right _ _ hk']
    have hshift (a n : Nat) : (a * k) <<< n = (a <<< n) * k := by
      rw [Nat.shiftLeft_eq, Nat.shiftLeft_eq, Nat.mul_right_comm]
    have hzero : num * k = 0 ↔ num = 0 := by simp [hk.ne']
    simp only [nearest, hexponent, hshift, roundedQuotient_mul_right _ _ hk, hzero]

/-- Equal fractions have the same nearest double. -/
theorem nearest_eq_of_cross {a b c d : Nat} (hb : 0 < b) (hd : 0 < d) (h : a * d = c * b) :
    nearest a b = nearest c d := by
  rw [← nearest_mul_right a b hb hd, h, Nat.mul_comm b d, nearest_mul_right c d hd hb]

/-! ## Magnitudes -/

theorem roundedQuotient_mul_self (n : Nat) {k : Nat} (hk : 0 < k) :
    roundedQuotient (n * k) k = n := by
  simp [roundedQuotient, Nat.mul_div_cancel _ hk, hk]

theorem significand_pos {m : Nat} (hm : 0 < m) : 0 < significand m := by
  unfold significand implicitBit
  split <;> omega

theorem neg_le_exponent (m : Nat) : -1074 ≤ exponent m := by
  unfold exponent
  split
  · exact le_rfl
  · next h =>
      have : 1 ≤ m / implicitBit := Nat.div_pos (not_lt.1 h) (by decide)
      omega

theorem exponent_le {m : Nat} (hm : m < infinity) : exponent m ≤ 971 := by
  unfold exponent
  split
  · decide
  · have : m / implicitBit < 2047 := Nat.div_lt_of_lt_mul (by rwa [mul_comm])
    omega

theorem ratio_den_pos (m : Nat) : 0 < (ratio m).2 := by
  unfold ratio
  split
  · exact Nat.one_pos
  · rw [Nat.shiftLeft_eq]
    positivity

theorem ratio_num_pos {m : Nat} (hm : 0 < m) : 0 < (ratio m).1 := by
  unfold ratio
  split
  · rw [Nat.shiftLeft_eq]
    exact Nat.mul_pos (significand_pos hm) (by positivity)
  · exact significand_pos hm

/-- A magnitude denotes its significand times a power of two. -/
theorem ratio_div (m : Nat) :
    ((ratio m).1 / (ratio m).2 : ℚ) = significand m * 2 ^ exponent m := by
  unfold ratio
  generalize significand m = s
  obtain ⟨k, hk | hk⟩ := (exponent m).eq_nat_or_neg
  · rw [hk, if_pos (Int.natCast_nonneg k)]
    simp [Nat.shiftLeft_eq]
  · rw [hk]
    split
    · obtain rfl : k = 0 := by omega
      simp
    · simp [Nat.shiftLeft_eq, div_eq_mul_inv]

/-- The exponent of a magnitude is the one that rounding chooses for it. -/
theorem exponentOf_ratio {m : Nat} (hm : 0 < m) :
    exponentOf (ratio m).1 (ratio m).2 = exponent m := by
  rw [exponentOf_eq (ratio_num_pos hm) (ratio_den_pos m), ratio_div]
  have htwo : (2 : ℚ) ≠ 0 := two_ne_zero
  by_cases h : m < implicitBit
  · -- Below the normal numbers the value is too small for its logarithm to count.
    have hvalue : (significand m * 2 ^ exponent m : ℚ) < 2 ^ (-1022 : Int) := by
      rw [significand, exponent, if_pos h, if_pos h]
      have hm' : (m : ℚ) < 2 ^ (52 : Int) := by exact_mod_cast h
      calc (m : ℚ) * 2 ^ (-1074 : Int) < 2 ^ (52 : Int) * 2 ^ (-1074 : Int) := by gcongr
        _ = 2 ^ (-1022 : Int) := by rw [← zpow_add₀ htwo]; rfl
    have hpos : (0 : ℚ) < significand m * 2 ^ exponent m := by
      have := significand_pos hm
      positivity
    have hlog := (Int.lt_zpow_iff_log_lt one_lt_two hpos).1 (by exact_mod_cast hvalue)
    rw [exponent, if_pos h] at *
    omega
  · have hlog : Int.log 2 (significand m * 2 ^ exponent m : ℚ) = exponent m + 52 := by
      have hlow : ((2 : ℚ) ^ (52 : Int)) ≤ significand m := by
        have : 2 ^ 52 ≤ significand m := by
          rw [significand, if_neg h]
          exact Nat.le_add_right _ _
        exact_mod_cast this
      have hhigh : (significand m : ℚ) < 2 ^ (53 : Int) := by
        have : significand m < 2 ^ 53 := by
          rw [significand, if_neg h]
          have := Nat.mod_lt m (show implicitBit > 0 by decide)
          simp only [implicitBit] at *
          omega
        exact_mod_cast this
      refine log_eq_of_zpow ?_ ?_
      · rw [add_comm, zpow_add₀ htwo]
        gcongr
      · rw [add_assoc, add_comm, zpow_add₀ htwo]
        gcongr
        exact hhigh
    have := neg_le_exponent m
    rw [hlog]
    omega

/-- Sign bit apart, the encoding is the exponent and the significand put together. -/
theorem encoding_eq (m : Nat) :
    (exponent m + 1074).toNat * implicitBit + significand m = m := by
  unfold exponent significand
  split
  · simp
  · next h =>
      have hpos : 1 ≤ m / implicitBit := Nat.div_pos (not_lt.1 h) (by decide)
      have hdiv := Nat.div_add_mod m implicitBit
      have hexponent : (((m / implicitBit : Nat) : Int) - 1075 + 1074).toNat =
          m / implicitBit - 1 := by omega
      rw [hexponent, Nat.sub_mul]
      have : implicitBit ≤ m / implicitBit * implicitBit := Nat.le_mul_of_pos_left _ hpos
      rw [mul_comm] at hdiv
      omega

/-- A finite magnitude is the nearest to the number that it denotes. -/
theorem nearest_ratio {m : Nat} (hm : 0 < m) (hfinite : m < infinity) :
    nearest (ratio m).1 (ratio m).2 = m := by
  have hnum := ratio_num_pos hm
  have hrounded : (if 0 ≤ exponent m then
      roundedQuotient (ratio m).1 ((ratio m).2 <<< (exponent m).toNat)
      else roundedQuotient ((ratio m).1 <<< (-exponent m).toNat) (ratio m).2) =
        significand m := by
    unfold ratio
    split
    · rw [Nat.shiftLeft_eq, Nat.shiftLeft_eq, Nat.one_mul]
      exact roundedQuotient_mul_self _ (by positivity)
    · rw [Nat.shiftLeft_eq, Nat.shiftLeft_eq, Nat.one_mul]
      exact roundedQuotient_mul_self _ (by positivity)
  unfold nearest
  dsimp only
  rw [exponentOf_ratio hm, hrounded, encoding_eq, if_neg hnum.ne']
  exact min_eq_left hfinite.le

end TagFormula.Binary64
