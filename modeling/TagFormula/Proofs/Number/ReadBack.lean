import Mathlib
import TagFormula.Proofs.Number.Nearest
import TagFormula.Proofs.Number.Plain

/-!
# Doubles read back from decimals

Two things are read back. The digits of a natural number denote it again
(`ofDigits_natText`), also with zeros in front of them. And the shortest decimal of a
finite double reads as this double (`Decimal.magnitude_shortest`): a point that has been
found on a grid was tested for that, and the exact expansion, which stands behind the
grids, has the value of the double itself.

The magnitude of a decimal depends on its value, so zeros may be written behind the
digits if the power of ten is reduced (`Decimal.magnitude_shift`).
-/

namespace TagFormula

/-! ## Digits of natural numbers -/

/-- In ASCII a run of digits denotes what it usually does. -/
theorem ofDigits_eq_ofDigitChars {ds : Text} (h : ∀ c ∈ ds, c.isDigit = true) :
    Text.ofDigits ds = Nat.ofDigitChars 10 ds 0 := by
  rw [Text.ofDigits]
  generalize 0 = n
  induction ds generalizing n with
  | nil => rfl
  | cons c ds ih =>
      have hvalue : Text.digitValue c = c.toNat - 0x30 := by
        rw [Text.digitValue, digitValue?_of_ascii (h c (List.mem_cons_self ..)), Option.getD_some]
      rw [List.foldl_cons, ih (fun d hd => h d (List.mem_cons_of_mem _ hd)), hvalue,
        Nat.ofDigitChars_cons]
      rfl

theorem ofDigits_natText (n : Nat) : Text.ofDigits (natText n) = n := by
  rw [ofDigits_eq_ofDigitChars fun c hc => isDigit_of_mem_natText hc]
  exact Nat.ofDigitChars_ten_toDigits

/-- Zeros in front do not count. -/
theorem ofDigits_zeros_natText (k n : Nat) :
    Text.ofDigits (List.replicate k '0' ++ natText n) = n := by
  have h : ∀ c ∈ List.replicate k '0' ++ natText n, c.isDigit = true := by
    intro c hc
    rcases List.mem_append.1 hc with hc | hc
    · exact isDigit_of_mem_zeros hc
    · exact isDigit_of_mem_natText hc
  rw [ofDigits_eq_ofDigitChars h, Nat.ofDigitChars_append, Nat.ofDigitChars_replicate_zero,
    Nat.mul_zero]
  exact Nat.ofDigitChars_ten_toDigits

/-- Zeros behind multiply by powers of ten. -/
theorem ofDigits_natText_zeros (n k : Nat) :
    Text.ofDigits (natText n ++ List.replicate k '0') = n * 10 ^ k := by
  have h : ∀ c ∈ natText n ++ List.replicate k '0', c.isDigit = true := by
    intro c hc
    rcases List.mem_append.1 hc with hc | hc
    · exact isDigit_of_mem_natText hc
    · exact isDigit_of_mem_zeros hc
  rw [ofDigits_eq_ofDigitChars h, Nat.ofDigitChars_append, Nat.ofDigitChars_replicate_zero,
    natText, Nat.ofDigitChars_ten_toDigits, Nat.mul_comm]

/-- Only zero begins with a zero. -/
theorem eq_zero_of_head?_natText {n : Nat} (h : (natText n).head? = some '0') : n = 0 := by
  induction n using Nat.strongRecOn with
  | ind n ih =>
      by_cases hn : n < 10
      · rw [natText, Nat.toDigits_of_lt_base hn] at h
        exact Nat.digitChar_eq_zero.1 (Option.some.inj h)
      · have hne : Nat.toDigits 10 (n / 10) ≠ [] := natText_ne_nil (n / 10)
        rw [natText, Nat.toDigits_of_base_le (by decide) (not_lt.1 hn),
          List.head?_append_of_ne_nil _ hne] at h
        have := ih (n / 10) (by omega) h
        omega

theorem length_natText_le {n k : Nat} (hk : 0 < k) (h : n < 10 ^ k) : (natText n).length ≤ k :=
  (Nat.length_toDigits_le_iff (by decide) hk).2 h

/-! ## Decimals -/

namespace Decimal

theorem ratio_den_pos (d : Decimal) : 0 < d.ratio.2 := by
  unfold ratio scaled
  split
  · exact Nat.mul_pos Nat.one_pos (Nat.pow_pos (by decide))
  · exact Nat.one_pos

/-- Within bounds that nothing but extreme decimals exceeds, the nearest double is taken. -/
theorem magnitude_eq_nearest {d : Decimal} (hdigits : d.digits ≠ 0) (hhigh : d.exponent ≤ 400)
    (hlow : -400 ≤ d.exponent + d.digits.log2 + 1) :
    d.magnitude = Binary64.nearest d.ratio.1 d.ratio.2 := by
  rw [magnitude, if_neg hdigits, if_neg (by omega), if_neg (by omega)]

theorem digits_ne_zero_of_magnitude {d : Decimal} (h : 0 < d.magnitude) : d.digits ≠ 0 := by
  intro hzero
  rw [magnitude, if_pos hzero] at h
  exact Nat.lt_irrefl 0 h

/-- The exact expansion has the value of the double. -/
theorem magnitude_exact {m : Nat} (hm : 0 < m) (hfinite : m < Binary64.infinity) :
    (exact m).magnitude = m := by
  have hs := Binary64.significand_pos hm
  have hexponent := Binary64.exponent_le hfinite
  have hsmall : Binary64.significand m <<< (Binary64.exponent m).toNat ≠ 0 := by
    rw [Nat.shiftLeft_eq]
    positivity
  refine Eq.trans ?_ (Binary64.nearest_ratio hm hfinite)
  unfold exact
  dsimp only
  split
  · next h =>
      rw [magnitude_eq_nearest hsmall (by simp) (by simp only; omega)]
      simp [ratio, scaled, Binary64.ratio, h]
  · next h =>
      obtain ⟨k, hk⟩ : ∃ k : Nat, Binary64.exponent m = -k := ⟨(-Binary64.exponent m).toNat, by omega⟩
      have hpow : 2 ^ (2 * k) ≤ Binary64.significand m * 5 ^ k := by
        calc 2 ^ (2 * k) = 4 ^ k := by rw [Nat.pow_mul]
          _ ≤ 5 ^ k := Nat.pow_le_pow_left (by decide) k
          _ ≤ Binary64.significand m * 5 ^ k := Nat.le_mul_of_pos_left _ hs
      have hne : Binary64.significand m * 5 ^ k ≠ 0 := by positivity
      have hlog : 2 * k ≤ (Binary64.significand m * 5 ^ k).log2 := (Nat.le_log2 hne).2 hpow
      have hk₀ : (0 : Int) ≤ k := Int.natCast_nonneg k
      simp only [hk, neg_neg, Int.toNat_natCast, Nat.pow_eq]
      rw [magnitude_eq_nearest hne (by simp only; omega) (by simp only; omega)]
      refine Binary64.nearest_eq_of_cross (ratio_den_pos _) (Binary64.ratio_den_pos m) ?_
      have hpos : ¬ (0 : Int) ≤ -k := by omega
      simp only [ratio, scaled, Binary64.ratio, hk, neg_neg, hk₀, hpos, if_true, if_false,
        Int.toNat_natCast, Nat.shiftLeft_eq, Nat.one_mul, Nat.pow_eq]
      rw [Nat.mul_assoc, ← Nat.mul_pow]

/-- The shortest decimal of a finite double reads back. -/
theorem magnitude_shortest {m : Nat} (hm : 0 < m) (hfinite : m < Binary64.infinity) :
    (shortest m).magnitude = m := by
  unfold shortest
  dsimp only
  generalize hfind : List.findSome? _ _ = found
  cases found with
  | none => exact magnitude_exact hm hfinite
  | some d =>
      obtain ⟨i, -, hgrid⟩ := List.exists_of_findSome?_eq_some hfind
      exact magnitude_of_onGrid? hgrid

/-- In positional notation a decimal with places is its digits, filled up with zeros in front,
with a point among them. Without filling the first digit is not a zero. -/
theorem positional_parts {d : Decimal} (h : d.exponent < 0) :
    ∃ whole places, d.positional = whole ++ '.' :: places ∧ whole ≠ [] ∧ places ≠ [] ∧
      (∀ c ∈ whole ++ places, c.isDigit = true) ∧ Text.ofDigits (whole ++ places) = d.digits ∧
      (places.length : Int) = -d.exponent ∧
      (d.digits ≠ 0 → whole.head? = some '0' → whole = ['0']) := by
  obtain ⟨n, k⟩ := d
  obtain ⟨count, rfl⟩ : ∃ count : Nat, k = -count := ⟨(-k).toNat, by simp only at h; omega⟩
  have hcount : 0 < count := by simp only at h; omega
  let zeros := count + 1 - (natText n).length
  let padded := List.replicate zeros '0' ++ natText n
  have hlength : padded.length = zeros + (natText n).length := by simp [padded]
  refine ⟨padded.take (padded.length - count), padded.drop (padded.length - count), ?_, ?_, ?_,
    ?_, ?_, ?_, ?_⟩
  · simp [positional, hcount.ne', padded, zeros]
  · rw [ne_eq, List.take_eq_nil_iff, ← List.length_eq_zero_iff]
    omega
  · rw [ne_eq, List.drop_eq_nil_iff]
    omega
  · rw [List.take_append_drop]
    intro c hc
    rcases List.mem_append.1 hc with hc | hc
    · exact isDigit_of_mem_zeros hc
    · exact isDigit_of_mem_natText hc
  · rw [List.take_append_drop, ofDigits_zeros_natText]
  · rw [List.length_drop, Int.neg_neg]
    omega
  · intro hdigits hhead
    rcases Nat.eq_zero_or_pos zeros with hz | hz
    · have hhead' : (natText n).head? = some '0' := by
        rw [List.head?_take, if_neg (by omega)] at hhead
        simpa [padded, hz] using hhead
      exact absurd (eq_zero_of_head?_natText hhead') hdigits
    · have hone : padded.length - count = 1 := by omega
      have hcons : padded = '0' :: (List.replicate (zeros - 1) '0' ++ natText n) := by
        rw [← List.cons_append, ← List.replicate_succ, Nat.sub_add_cancel hz]
      rw [hone, hcons]
      rfl

/-- Zeros behind the digits make up for a smaller power of ten. -/
theorem magnitude_shift {d : Decimal} (hdigits : d.digits ≠ 0) (hnonneg : 0 ≤ d.exponent)
    (hle : d.exponent ≤ 400) :
    (⟨d.digits * 10 ^ (d.exponent.toNat + 1), -1⟩ : Decimal).magnitude = d.magnitude := by
  obtain ⟨digits, exponent⟩ := d
  obtain ⟨k, rfl⟩ := Int.eq_ofNat_of_zero_le hnonneg
  have hne : digits * 10 ^ (k + 1) ≠ 0 := Nat.mul_ne_zero hdigits (by positivity)
  simp only [Int.toNat_natCast] at *
  rw [magnitude_eq_nearest hne (by simp) (by simp only; omega),
    magnitude_eq_nearest hdigits hle (by simp only; omega)]
  refine Binary64.nearest_eq_of_cross (ratio_den_pos _) (ratio_den_pos _) ?_
  rcases Nat.eq_zero_or_pos k with rfl | hk
  · simp [ratio, scaled]
  · simp [ratio, scaled, hk.ne', Nat.pow_succ, Nat.mul_assoc]

end Decimal

/-! ## Doubles -/

namespace Binary64

/-- A double is its sign and its magnitude. -/
theorem ofMagnitude_magnitude (x : Float) : ofMagnitude (isNegative x) (magnitude x) = x := by
  have hlt : x.toBits.toNat < 2 ^ 64 := x.toBits.toNat_lt
  have hbits : (if isNegative x then signBit + magnitude x else magnitude x) = x.toBits.toNat := by
    unfold isNegative magnitude signBit
    split
    · next h =>
        have := of_decide_eq_true h
        omega
    · next h =>
        have : ¬ _ := fun h' => h (decide_eq_true h')
        omega
  rw [ofMagnitude, hbits, UInt64.ofNat_toNat, Float.ofBits_toBits]

end Binary64

end TagFormula
