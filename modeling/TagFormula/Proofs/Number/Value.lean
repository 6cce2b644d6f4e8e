import Mathlib
import TagFormula.Number.Basic
import TagFormula.Proofs.Number.Negation
import TagFormula.Proofs.Number.ReadBack

/-!
# The numbers that doubles and decimals denote

A finite double and a decimal denote rational numbers. A double counts as an integer just
where the number it denotes is one (`Binary64.integer?_eq_some_iff`), and the double nearest
to a fraction depends on the value of the fraction alone (`Binary64.nearest_eq_of_div_eq`).

An integer is only ever rounded to an integer (`Binary64.exists_size_nearest`): the double
nearest to it either has room for all its bits or has no bits behind the point. So the
shortest decimal of a double that is not integral has a negative power of ten.
-/

namespace TagFormula

/-- The number that a decimal denotes. -/
def Decimal.value (d : Decimal) : ℚ :=
  d.digits * 10 ^ d.exponent

namespace Binary64

/-- The number that a finite magnitude denotes. -/
def size (m : Nat) : ℚ :=
  significand m * 2 ^ exponent m

/-- The number that a finite double denotes. -/
def value (x : Float) : ℚ :=
  if isNegative x then -size (magnitude x) else size (magnitude x)

/-! ## Signs -/

section

variable {x : Float}

theorem isFinite_neg (h : isFinite x = true) : isFinite (-x) = true := by
  rw [isFinite, magnitude_neg h]
  exact h

theorem value_neg (h : isFinite x = true) : value (-x) = -value x := by
  rw [value, value, magnitude_neg h, isNegative_neg h]
  cases isNegative x
  · rfl
  · exact (neg_neg _).symm

/-- The double without its sign. -/
theorem ofMagnitude_false_magnitude (h : isFinite x = true) :
    ofMagnitude false (magnitude x) = if isNegative x then -x else x := by
  cases hsign : isNegative x with
  | false =>
    have hx := ofMagnitude_magnitude x
    rw [hsign] at hx
    exact hx
  | true =>
    have hx := ofMagnitude_magnitude (-x)
    rw [isNegative_neg h, magnitude_neg h, hsign] at hx
    exact hx

theorem isFinite_ofMagnitude_magnitude (h : isFinite x = true) :
    isFinite (ofMagnitude false (magnitude x)) = true := by
  rw [ofMagnitude_false_magnitude h]
  split
  · exact isFinite_neg h
  · exact h

theorem value_ofMagnitude_magnitude (h : isFinite x = true) :
    value (ofMagnitude false (magnitude x)) = size (magnitude x) := by
  rw [ofMagnitude_false_magnitude h]
  split
  next hsign => rw [value_neg h, value, if_pos hsign, neg_neg]
  next hsign => rw [value, if_neg hsign]

end

/-! ## Integers -/

theorem size_nonneg (m : Nat) : 0 ≤ size m := by
  rw [size]
  positivity

@[simp] theorem size_zero : size 0 = 0 := by
  rw [size, significand, if_pos (by decide), Nat.cast_zero, zero_mul]

theorem size_pos {m : Nat} (h : 0 < m) : 0 < size m := by
  have hpos := significand_pos h
  rw [size]
  positivity

/-- Zero is integral. -/
theorem pos_of_not_integral {m : Nat} (h : ¬ ∃ k : Nat, size m = k) : 0 < m := by
  refine Nat.pos_of_ne_zero fun hzero => h ⟨0, ?_⟩
  rw [hzero, size_zero, Nat.cast_zero]

theorem mul_size (m : Nat) : ((ratio m).2 : ℚ) * size m = (ratio m).1 := by
  have hden : ((ratio m).2 : ℚ) ≠ 0 := Nat.cast_ne_zero.2 (ratio_den_pos m).ne'
  rw [size, ← ratio_div, mul_div_cancel₀ _ hden]

/-- A magnitude denotes a natural number when its denominator divides the numerator. -/
theorem size_eq_iff {m k : Nat} : size m = k ↔ (ratio m).1 = (ratio m).2 * k := by
  have hden : ((ratio m).2 : ℚ) ≠ 0 := Nat.cast_ne_zero.2 (ratio_den_pos m).ne'
  rw [← Nat.cast_inj (R := ℚ), Nat.cast_mul, ← mul_size, mul_right_inj' hden]

section

variable {x : Float}

theorem integer?_of_size {k : Nat} (h : isFinite x = true) (hk : size (magnitude x) = k) :
    integer? x = some (if isNegative x then -(k : Int) else k) := by
  have hratio := size_eq_iff.1 hk
  have hquotient : (ratio (magnitude x)).1 / (ratio (magnitude x)).2 = k :=
    Nat.div_eq_of_eq_mul_right (ratio_den_pos _) hratio
  rw [integer?, if_pos ⟨k, hratio⟩, truncate?, if_pos h]
  dsimp only
  rw [hquotient]

theorem integer?_eq_none (hnone : ¬ ∃ k : Nat, size (magnitude x) = k) : integer? x = none := by
  refine if_neg fun hdvd => hnone ?_
  obtain ⟨k, hk⟩ := hdvd
  exact ⟨k, size_eq_iff.2 hk⟩

theorem value_of_size {k : Nat} (hk : size (magnitude x) = k) :
    value x = ((if isNegative x then -(k : Int) else k : Int) : ℚ) := by
  rw [value, hk]
  split <;> simp

/-- Without its sign, too, an integral value is an integer. -/
theorem exists_size_eq {n : Int} (h : value x = n) : size (magnitude x) = n.natAbs := by
  have habs : |value x| = size (magnitude x) := by
    rw [value]
    split
    · rw [abs_neg, abs_of_nonneg (size_nonneg _)]
    · exact abs_of_nonneg (size_nonneg _)
  rw [← habs, h, Nat.cast_natAbs, Int.cast_abs]

theorem integer?_eq_some_iff (h : isFinite x = true) {n : Int} :
    integer? x = some n ↔ value x = n := by
  constructor
  · intro hn
    have hsize : ∃ k : Nat, size (magnitude x) = k := by
      by_contra hnone
      rw [integer?_eq_none hnone] at hn
      exact nomatch hn
    obtain ⟨k, hk⟩ := hsize
    rw [integer?_of_size h hk] at hn
    rw [value_of_size hk, Option.some.inj hn]
  · intro hn
    have hk := exists_size_eq hn
    have hcast := (value_of_size hk).symm.trans hn
    rw [integer?_of_size h hk, Int.cast_injective hcast]

end

/-! ## Rounding -/

theorem nearest_eq_of_div_eq {a b c d : Nat} (hb : 0 < b) (hd : 0 < d)
    (h : (a / b : ℚ) = c / d) : nearest a b = nearest c d := by
  have hb' : (b : ℚ) ≠ 0 := Nat.cast_ne_zero.2 hb.ne'
  have hd' : (d : ℚ) ≠ 0 := Nat.cast_ne_zero.2 hd.ne'
  rw [div_eq_div_iff hb' hd'] at h
  exact nearest_eq_of_cross hb hd (by exact_mod_cast h)

/-- The encoding of a normal number can be taken apart again. -/
theorem size_of_encoding {q s : Nat} (hlow : implicitBit ≤ s) (hhigh : s < 2 * implicitBit) :
    size (q * implicitBit + s) = s * 2 ^ ((q : Int) - 1074) := by
  have hpos : 0 < implicitBit := by decide
  have hnormal : ¬ q * implicitBit + s < implicitBit := by omega
  obtain ⟨r, rfl⟩ := Nat.exists_eq_add_of_le hlow
  have hr : r < implicitBit := by omega
  have hshift : q * implicitBit + (implicitBit + r) = implicitBit * (q + 1) + r := by ring
  have hdiv : (q * implicitBit + (implicitBit + r)) / implicitBit = q + 1 := by
    rw [hshift, Nat.mul_add_div hpos, Nat.div_eq_of_lt hr, Nat.add_zero]
  have hmod : (q * implicitBit + (implicitBit + r)) % implicitBit = r := by
    rw [hshift, Nat.mul_add_mod, Nat.mod_eq_of_lt hr]
  have hexponent : ((q + 1 : Nat) : Int) - 1075 = q - 1074 := by omega
  rw [size, significand, exponent, if_neg hnormal, if_neg hnormal, hdiv, hmod, hexponent]

/-- From `2 ^ 52` on all magnitudes denote integers. -/
theorem exists_size_of_le {m : Nat} (h : 1075 * implicitBit ≤ m) : ∃ k : Nat, size m = k := by
  have hexponent : 0 ≤ exponent m := by
    have hdiv : 1075 ≤ m / implicitBit := (Nat.le_div_iff_mul_le (by decide)).2 h
    rw [exponent, if_neg (by omega)]
    omega
  obtain ⟨k, hk⟩ := Int.eq_ofNat_of_zero_le hexponent
  refine ⟨significand m * 2 ^ k, ?_⟩
  rw [size, hk]
  push_cast
  rfl

theorem exponentOf_one {n : Nat} (h : 0 < n) : exponentOf n 1 = n.log2 - 52 := by
  have hlog : Int.log 2 ((n : ℚ) / (1 : Nat)) = n.log2 := by
    rw [Nat.cast_one, div_one, Int.log_natCast, Nat.log2_eq_log_two]
  rw [exponentOf_eq h one_pos, hlog]
  omega

theorem div_le_roundedQuotient (num den : Nat) : num / den ≤ roundedQuotient num den := by
  unfold roundedQuotient
  dsimp only
  split
  · exact Nat.le_refl _
  split
  · exact Nat.le_succ _
  · exact Nat.le_add_right _ _

/-- The parts of the double nearest to an integer: with fewer than 53 bits it is shifted to the
left, otherwise the bits behind the first 53 are rounded. -/
theorem nearest_one {n : Nat} (hn : 0 < n) :
    nearest n 1 = min ((n.log2 + 1022) * implicitBit +
      if 52 ≤ n.log2 then roundedQuotient n (2 ^ (n.log2 - 52)) else n * 2 ^ (52 - n.log2))
        infinity := by
  have hexponent : ((n.log2 : Int) - 52 + 1074).toNat = n.log2 + 1022 := by omega
  have hright : ((n.log2 : Int) - 52).toNat = n.log2 - 52 := by omega
  have hleft : (-((n.log2 : Int) - 52)).toNat = 52 - n.log2 := by omega
  have hself : roundedQuotient (n * 2 ^ (52 - n.log2)) 1 = n * 2 ^ (52 - n.log2) := by
    have hmul := roundedQuotient_mul_self (n * 2 ^ (52 - n.log2)) one_pos
    rwa [Nat.mul_one] at hmul
  have hsign : (0 : Int) ≤ n.log2 - 52 ↔ 52 ≤ n.log2 := by omega
  simp only [nearest, exponentOf_one hn, hn.ne', if_false, hexponent, hright, hleft, hsign,
    Nat.shiftLeft_eq, Nat.one_mul, hself]

/-- The leading bits of a long integer. -/
theorem implicitBit_le_div {n : Nat} (hn : n ≠ 0) (hlog : 52 ≤ n.log2) :
    implicitBit ≤ n / 2 ^ (n.log2 - 52) := by
  have hlow : 2 ^ n.log2 ≤ n := Nat.log2_self_le hn
  rw [Nat.le_div_iff_mul_le (by positivity)]
  refine le_trans (le_of_eq ?_) hlow
  rw [show implicitBit = 2 ^ 52 from rfl, ← pow_add, Nat.add_sub_cancel' hlog]

/-- A short integer fills the significand when it is shifted. -/
theorem shifted_bounds {n k : Nat} (hn : n ≠ 0) (hk : n.log2 + k = 52) :
    implicitBit ≤ n * 2 ^ k ∧ n * 2 ^ k < 2 * implicitBit := by
  have hone : implicitBit = 2 ^ n.log2 * 2 ^ k := by
    rw [← pow_add, hk]
    rfl
  have htwo : 2 * implicitBit = 2 ^ (n.log2 + 1) * 2 ^ k := by
    rw [hone]
    ring
  rw [htwo, hone]
  exact ⟨Nat.mul_le_mul_right _ (Nat.log2_self_le hn),
    Nat.mul_lt_mul_of_pos_right Nat.lt_log2_self (by positivity)⟩

/-- The double nearest to an integer is integral. -/
theorem exists_size_nearest {n : Nat} (hfinite : nearest n 1 < infinity) :
    ∃ k : Nat, size (nearest n 1) = k := by
  rcases Nat.eq_zero_or_pos n with rfl | hn
  · exact ⟨0, by simp [nearest]⟩
  rw [nearest_one hn] at hfinite ⊢
  rw [min_eq_left (by omega)]
  split
  next hlog =>
    refine exists_size_of_le ?_
    have hquotient := implicitBit_le_div hn.ne' hlog
    have hrounded := div_le_roundedQuotient n (2 ^ (n.log2 - 52))
    simp only [implicitBit] at *
    omega
  next hlog =>
    -- All bits fit, so nothing is rounded.
    obtain ⟨k, hk⟩ := Nat.exists_eq_add_of_lt (not_le.1 hlog)
    have hshift : 52 - n.log2 = k + 1 := by omega
    obtain ⟨hlow, hhigh⟩ := shifted_bounds (k := k + 1) hn.ne' hk.symm
    have hexponent : ((n.log2 + 1022 : Nat) : Int) - 1074 = -((k + 1 : Nat) : Int) := by omega
    refine ⟨n, ?_⟩
    rw [hshift, size_of_encoding hlow hhigh, hexponent, zpow_neg, zpow_natCast, Nat.cast_mul,
      Nat.cast_pow, Nat.cast_two, mul_inv_cancel_right₀ (by positivity)]

end Binary64

/-! ## Decimals -/

namespace Decimal

theorem ratio_div (d : Decimal) : (d.ratio.1 / d.ratio.2 : ℚ) = d.value := by
  obtain ⟨digits, exponent⟩ := d
  obtain ⟨k, rfl | rfl⟩ := exponent.eq_nat_or_neg
  · rcases Nat.eq_zero_or_pos k with rfl | hk
    · simp [ratio, scaled, value]
    · simp [ratio, scaled, value, hk.ne']
  · simp [ratio, scaled, value, div_eq_mul_inv]

/-- An integral double is the one nearest to its digits. -/
theorem magnitude_of_size {m k : Nat} (hfinite : m < Binary64.infinity)
    (h : Binary64.size m = k) : (⟨k, 0⟩ : Decimal).magnitude = m := by
  rcases Nat.eq_zero_or_pos m with rfl | hm
  · have hk : k = 0 := by
      rw [Binary64.size_zero] at h
      exact_mod_cast h.symm
    rw [hk]
    rfl
  · have hk : k ≠ 0 := by
      rintro rfl
      exact (Binary64.size_pos hm).ne' (by rw [h, Nat.cast_zero])
    rw [magnitude_eq_nearest hk (by simp) (by simp only; omega),
      ← Binary64.nearest_ratio hm hfinite]
    refine Binary64.nearest_eq_of_div_eq (ratio_den_pos _) (Binary64.ratio_den_pos m) ?_
    rw [ratio_div, Binary64.ratio_div, ← Binary64.size, h, value, zpow_zero, mul_one]

/-- The shortest decimal of a double that is not integral has digits behind the point. -/
theorem exponent_shortest_neg {m : Nat} (hfinite : m < Binary64.infinity)
    (hnone : ¬ ∃ k : Nat, Binary64.size m = k) : (shortest m).exponent < 0 := by
  have hm := Binary64.pos_of_not_integral hnone
  have hread := magnitude_shortest hm hfinite
  generalize shortest m = d at hread ⊢
  by_contra hneg
  obtain ⟨k, hk⟩ := Int.eq_ofNat_of_zero_le (not_lt.1 hneg)
  have hdigits : d.digits ≠ 0 := digits_ne_zero_of_magnitude (hread ▸ hm)
  have hle : d.exponent ≤ 400 := by
    by_contra hlt
    rw [magnitude, if_neg hdigits, if_pos (not_le.1 hlt)] at hread
    exact absurd hfinite (hread ▸ Nat.lt_irrefl _)
  have hnearest : Binary64.nearest (d.digits * 10 ^ k) 1 = m := by
    rw [← hread, magnitude_eq_nearest hdigits hle (by omega)]
    refine Binary64.nearest_eq_of_div_eq one_pos (ratio_den_pos d) ?_
    rw [ratio_div, value, hk]
    simp
  refine hnone ?_
  rw [← hnearest] at hfinite ⊢
  exact Binary64.exists_size_nearest hfinite

end Decimal

/-! ## Results -/

namespace Number

/-- The number that a result denotes. -/
def value : Number → ℚ
  | integer n => n
  | double x => Binary64.value x

/-- A result denotes an integer. -/
def IsIntegral (v : Number) : Prop :=
  ∃ n : ℤ, v.value = n

variable {x : Float}

theorem integer?_eq_none_iff (h : Binary64.isFinite x = true) :
    Binary64.integer? x = none ↔ ¬ IsIntegral (double x) := by
  rw [Option.eq_none_iff_forall_ne_some, IsIntegral, not_exists]
  exact forall_congr' fun n => not_congr (Binary64.integer?_eq_some_iff h)

theorem value_ofFloat (h : Binary64.isFinite x = true) : (ofFloat x).value = Binary64.value x := by
  cases hinteger : Binary64.integer? x with
  | none => rw [ofFloat, hinteger, value]
  | some n =>
    rw [ofFloat, hinteger]
    dsimp only
    split
    · exact ((Binary64.integer?_eq_some_iff h).1 hinteger).symm
    · rfl

/-- Just the integers below the bound are kept as integers. -/
theorem exists_ofFloat_eq_integer_iff (h : Binary64.isFinite x = true) :
    (∃ n, ofFloat x = .integer n) ↔ ∃ n : ℤ, Binary64.value x = n ∧ n.natAbs < 2 ^ 53 := by
  have hbound : integerBound = 2 ^ 53 := rfl
  rw [← hbound]
  simp only [← Binary64.integer?_eq_some_iff h]
  cases hinteger : Binary64.integer? x with
  | none => simp [ofFloat, hinteger]
  | some n =>
    by_cases hlt : n.natAbs < integerBound
    · simp [ofFloat, hinteger, hlt]
    · simp [ofFloat, hinteger, hlt]

end Number

end TagFormula
