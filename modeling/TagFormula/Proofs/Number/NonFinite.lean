import TagFormula.Number.Power

/-!
# Infinities and undefined values in arithmetic

Where a double that is not finite comes out finite again. Sums, differences, products and
negations never do this: their result is finite only where all operands are. A quotient
does it in one case, when a finite dividend stands over an infinite divisor, and a power
in those that `Power.FiniteLimit` lists.

The four operations are given by an unpacked form of doubles, in which zeros, infinities
and what is no number are told apart from other values. So what is shown first is that the
unpacked form can be read off the magnitude (`unpack_cases`), and that packing makes
nothing finite (`isFinite_of_pack`).
-/

namespace TagFormula

namespace Binary64

open Float.Model
open Float.Model.UnpackedFloat

/-! ## Zero, one and infinity -/

@[simp] theorem isFinite_one : isFinite 1 = true := by
  decide +kernel

@[simp] theorem isFinite_zero : isFinite 0 = true := by
  decide +kernel

@[simp] theorem isFinite_ofMagnitude_zero (negative : Bool) :
    isFinite (ofMagnitude negative 0) = true := by
  cases negative <;> decide +kernel

@[simp] theorem isFinite_ofMagnitude_infinity (negative : Bool) :
    isFinite (ofMagnitude negative infinity) = false := by
  cases negative <;> decide +kernel

theorem magnitude_one_lt : magnitude 1 < infinity :=
  of_decide_eq_true isFinite_one

theorem isFinite_of_isNaN {x : Float} (h : isNaN x = true) : isFinite x = false :=
  decide_eq_false (Nat.lt_asymm (of_decide_eq_true h))

/-! ## The unpacked form -/

/-- The exponent bits are all set from infinity on. -/
theorem unpackExponent_eq_iff (x : Float) :
    @unpackExponent .binary64 x.toBits.toBitVec = -1#11 ↔ infinity ≤ magnitude x := by
  have hvec : (@unpackExponent .binary64 x.toBits.toBitVec).toNat =
      x.toBits.toNat / 4503599627370496 % 2048 := by
    simp [unpackExponent, Nat.shiftRight_eq_div_pow]
  have hones : (-1#11).toNat = 2047 := by decide
  rw [← BitVec.toNat_inj, hvec, hones, magnitude, infinity, implicitBit, signBit]
  omega

/-- Above infinity the fraction is not zero. -/
theorem unpackMantissa_eq_iff {x : Float} (h : infinity ≤ magnitude x) :
    @unpackMantissa .binary64 x.toBits.toBitVec = 0#52 ↔ magnitude x = infinity := by
  have hvec : (@unpackMantissa .binary64 x.toBits.toBitVec).toNat =
      x.toBits.toNat % 4503599627370496 := by
    simp [unpackMantissa]
  rw [magnitude, infinity, implicitBit, signBit] at h ⊢
  have hzero : (0#52).toNat = 0 := rfl
  rw [← BitVec.toNat_inj, hvec, hzero]
  omega

theorem exists_unpack_eq (x : Float) :
    ∃ s u, u.isFinite = true ∧ x.toModel.unpack =
      if @unpackExponent .binary64 x.toBits.toBitVec = -1#11 then
        if @unpackMantissa .binary64 x.toBits.toBitVec = 0#52 then .infinity s else .notANumber
      else u := by
  refine ⟨_, _, ?_, rfl⟩
  refine iteInduction (motive := fun u => UnpackedFloat.isFinite u = true) (fun _ => ?_) fun _ => rfl
  by_cases h : @unpackMantissa .binary64 x.toModel.toBits.toBitVec = 0#_
  · rw [dif_pos h]
    rfl
  · rw [dif_neg h]
    rfl

/-- The kind of the unpacked form is that of the magnitude. -/
theorem unpack_cases (x : Float) :
    (magnitude x < infinity ∧ x.toModel.unpack.isFinite = true) ∨
      (magnitude x = infinity ∧ ∃ s, x.toModel.unpack = .infinity s) ∨
      (infinity < magnitude x ∧ x.toModel.unpack = .notANumber) := by
  obtain ⟨s, u, hu, hunpack⟩ := exists_unpack_eq x
  rw [hunpack]
  by_cases hle : infinity ≤ magnitude x
  · rw [if_pos ((unpackExponent_eq_iff x).2 hle)]
    by_cases heq : magnitude x = infinity
    · rw [if_pos ((unpackMantissa_eq_iff hle).2 heq)]
      exact .inr (.inl ⟨heq, s, rfl⟩)
    · rw [if_neg (mt (unpackMantissa_eq_iff hle).1 heq)]
      exact .inr (.inr ⟨Nat.lt_of_le_of_ne hle (Ne.symm heq), rfl⟩)
  · rw [if_neg (mt (unpackExponent_eq_iff x).1 hle)]
    exact .inl ⟨Nat.lt_of_not_le hle, hu⟩

theorem isFinite_eq_unpack (x : Float) : isFinite x = x.toModel.unpack.isFinite := by
  obtain ⟨hx, hu⟩ | ⟨hx, s, hu⟩ | ⟨hx, hu⟩ := unpack_cases x
  · rw [hu]
    exact decide_eq_true hx
  · rw [hu, isFinite, hx]
    rfl
  · rw [hu]
    exact decide_eq_false (Nat.lt_asymm hx)

/-- The magnitude is that of infinity just where the unpacked form is an infinite one. -/
theorem magnitude_eq_infinity_iff (x : Float) :
    magnitude x = infinity ↔ ∃ s, x.toModel.unpack = .infinity s := by
  obtain ⟨hx, hu⟩ | ⟨hx, s, hu⟩ | ⟨hx, hu⟩ := unpack_cases x
  · refine iff_of_false (Nat.ne_of_lt hx) ?_
    rintro ⟨s, hs⟩
    rw [hs] at hu
    exact Bool.false_ne_true hu
  · exact iff_of_true hx ⟨s, hu⟩
  · refine iff_of_false (Nat.ne_of_gt hx) ?_
    rintro ⟨s, hs⟩
    rw [hs] at hu
    cases hu

/-- Packing rounds to infinity, never from it. -/
theorem isFinite_of_pack {u : UnpackedFloat} (h : isFinite ⟨Float.Model.pack u⟩ = true) :
    u.isFinite = true := by
  have hlt : ¬ infinity ≤ magnitude ⟨Float.Model.pack u⟩ := Nat.not_le_of_lt (of_decide_eq_true h)
  have hbits : (Float.toBits ⟨Float.Model.pack u⟩).toBitVec = UnpackedFloat.pack .binary64 u := rfl
  rw [← unpackExponent_eq_iff, hbits] at hlt
  cases u with
  | zero s => rfl
  | finite s m e hm => rfl
  | infinity s => exact absurd unpackExponent_packComponents hlt
  | notANumber => exact absurd unpackExponent_packComponents hlt

theorem not_isFinite_pack_infinity (s : UnpackedFloat.Sign) :
    ¬ isFinite ⟨Float.Model.pack (.infinity s)⟩ = true :=
  fun h => Bool.false_ne_true (isFinite_of_pack h)

theorem not_isFinite_pack_notANumber : ¬ isFinite ⟨Float.Model.pack .notANumber⟩ = true :=
  fun h => Bool.false_ne_true (isFinite_of_pack h)

theorem isFinite_pack_zero (s : UnpackedFloat.Sign) :
    isFinite ⟨Float.Model.pack (.zero s)⟩ = true := by
  cases s <;> decide +kernel

/-! ## The operations -/

section Operations

variable {x y : Float}

theorem isFinite_of_neg (h : isFinite (-x) = true) : isFinite x = true := by
  have hneg := @isFinite_of_pack x.toModel.unpack.neg h
  rw [isFinite_eq_unpack]
  revert hneg
  cases x.toModel.unpack <;> exact id

/-- What holds of the operations on the unpacked forms holds of those on doubles. -/
theorem isFinite_of_unpacked {op : UnpackedFloat → UnpackedFloat → UnpackedFloat}
    (hop : ∀ u v, (op u v).isFinite = true → u.isFinite = true ∧ v.isFinite = true)
    (h : isFinite ⟨Float.Model.pack (op x.toModel.unpack y.toModel.unpack)⟩ = true) :
    isFinite x = true ∧ isFinite y = true := by
  rw [isFinite_eq_unpack, isFinite_eq_unpack]
  exact hop _ _ (isFinite_of_pack h)

/-- Two infinities have an infinite sum or difference, or none. -/
theorem isFinite_ite_infinity (c : Prop) [Decidable c] (s : UnpackedFloat.Sign) :
    (if c then UnpackedFloat.infinity s else .notANumber).isFinite = false := by
  split <;> rfl

theorem isFinite_of_add (h : isFinite (x + y) = true) :
    isFinite x = true ∧ isFinite y = true := by
  refine isFinite_of_unpacked (fun u v => ?_) h
  cases u <;> cases v
  case infinity.infinity s t =>
    exact fun hfinite => absurd ((isFinite_ite_infinity _ _).symm.trans hfinite) Bool.false_ne_true
  all_goals first
    | exact fun _ => ⟨rfl, rfl⟩
    | exact fun hfinite => absurd hfinite Bool.false_ne_true

theorem isFinite_of_sub (h : isFinite (x - y) = true) :
    isFinite x = true ∧ isFinite y = true := by
  refine isFinite_of_unpacked (fun u v => ?_) h
  cases u <;> cases v
  case infinity.infinity s t =>
    exact fun hfinite => absurd ((isFinite_ite_infinity _ _).symm.trans hfinite) Bool.false_ne_true
  all_goals first
    | exact fun _ => ⟨rfl, rfl⟩
    | exact fun hfinite => absurd hfinite Bool.false_ne_true

theorem isFinite_of_mul (h : isFinite (x * y) = true) :
    isFinite x = true ∧ isFinite y = true := by
  refine isFinite_of_unpacked (fun u v => ?_) h
  cases u <;> cases v
  all_goals first
    | exact fun _ => ⟨rfl, rfl⟩
    | exact fun hfinite => absurd hfinite Bool.false_ne_true

/-- Where just one of the operands is finite, the quotient is an infinity or a zero. -/
theorem isFinite_pack_div_iff {u v : UnpackedFloat}
    (h : ¬ (u.isFinite = true ∧ v.isFinite = true)) :
    isFinite ⟨Float.Model.pack (.div .binary64 u v)⟩ = true ↔
      u.isFinite = true ∧ ∃ s, v = .infinity s := by
  cases v with
  | infinity t =>
    cases u with
    | zero | finite => exact iff_of_true (isFinite_pack_zero _) ⟨rfl, t, rfl⟩
    | infinity | notANumber =>
      exact iff_of_false not_isFinite_pack_notANumber fun hu => Bool.false_ne_true hu.1
  | notANumber =>
    refine iff_of_false ?_ ?_
    · cases u <;> exact not_isFinite_pack_notANumber
    · rintro ⟨-, s, hs⟩
      cases hs
  | zero | finite =>
    refine iff_of_false ?_ ?_
    · cases u with
      | infinity => exact not_isFinite_pack_infinity _
      | notANumber => exact not_isFinite_pack_notANumber
      | zero | finite => exact absurd ⟨rfl, rfl⟩ h
    · rintro ⟨-, s, hs⟩
      cases hs

/-- A quotient with an operand that is not finite is finite in one case: the divisor is
infinite and the dividend is not. -/
theorem isFinite_div_iff (h : ¬ (isFinite x = true ∧ isFinite y = true)) :
    isFinite (x / y) = true ↔ isFinite x = true ∧ magnitude y = infinity := by
  rw [isFinite_eq_unpack x, isFinite_eq_unpack y] at h
  rw [isFinite_eq_unpack x, magnitude_eq_infinity_iff]
  exact isFinite_pack_div_iff h

end Operations

end Binary64

/-! ## Powers -/

namespace Power

open Binary64

/-- The powers that are finite although the base or the exponent is not. -/
inductive FiniteLimit (base exponent : Float) : Prop where
  /-- Everything to the power zero is one. -/
  | zeroExponent (h : magnitude exponent = 0)
  /-- One to any power is one, even to an undefined one. -/
  | one (hbase : magnitude base = magnitude 1) (hpos : isNegative base = false)
    (hexponent : isNaN exponent = true)
  /-- One or minus one to an infinite power is one. -/
  | unit (hbase : magnitude base = magnitude 1) (hexponent : magnitude exponent = infinity)
  /-- Less than one to the power plus infinity is zero. -/
  | vanishing (hbase : magnitude base < magnitude 1) (hexponent : magnitude exponent = infinity)
    (hpos : isNegative exponent = false)
  /-- More than one to the power minus infinity is zero. -/
  | inverse (hlow : magnitude 1 < magnitude base) (hbase : magnitude base ≤ infinity)
    (hexponent : magnitude exponent = infinity) (hneg : isNegative exponent = true)
  /-- Infinity to a negative power is zero. -/
  | infiniteBase (hbase : magnitude base = infinity) (hexponent : magnitude exponent < infinity)
    (hneg : isNegative exponent = true)

theorem toInfinite_of_lt {x : Float} (h : magnitude x < magnitude 1) (y : Float) :
    toInfinite x y = if isNegative y then ofMagnitude false infinity else 0 := by
  rw [toInfinite, if_neg (Nat.ne_of_lt h), decide_eq_false (Nat.lt_asymm h)]
  cases isNegative y <;> rfl

theorem toInfinite_of_gt {x : Float} (h : magnitude 1 < magnitude x) (y : Float) :
    toInfinite x y = if isNegative y then 0 else ofMagnitude false infinity := by
  rw [toInfinite, if_neg (Nat.ne_of_gt h), decide_eq_true h]
  cases isNegative y <;> rfl

/-- The limits of a base that is a number, for an infinite exponent. -/
theorem finiteLimit_iff_of_infinite {x y : Float} (hx : magnitude x ≤ infinity)
    (hy : magnitude y = infinity) :
    FiniteLimit x y ↔ magnitude x = magnitude 1 ∨
      (magnitude x < magnitude 1 ∧ isNegative y = false) ∨
      (magnitude 1 < magnitude x ∧ isNegative y = true) := by
  constructor
  · rintro (h | ⟨-, -, h⟩ | ⟨h, -⟩ | ⟨h, -, h'⟩ | ⟨h, -, -, h'⟩ | ⟨-, h, -⟩)
    · exact absurd (h.symm.trans hy) (by decide)
    · exact absurd hy (Nat.ne_of_gt (of_decide_eq_true h))
    · exact .inl h
    · exact .inr (.inl ⟨h, h'⟩)
    · exact .inr (.inr ⟨h, h'⟩)
    · exact absurd hy (Nat.ne_of_lt h)
  · rintro (h | ⟨h, h'⟩ | ⟨h, h'⟩)
    · exact .unit h hy
    · exact .vanishing h hy h'
    · exact .inverse h hx hy h'

theorem isFinite_toInfinite_iff {x y : Float} (hx : magnitude x ≤ infinity)
    (hy : magnitude y = infinity) : isFinite (toInfinite x y) = true ↔ FiniteLimit x y := by
  rw [finiteLimit_iff_of_infinite hx hy]
  obtain h | h | h := Nat.lt_trichotomy (magnitude x) (magnitude 1)
  · rw [toInfinite_of_lt h]
    cases isNegative y <;> simp [h, Nat.lt_asymm h, Nat.ne_of_lt h]
  · rw [toInfinite, if_pos h]
    exact iff_of_true isFinite_one (.inl h)
  · rw [toInfinite_of_gt h]
    cases isNegative y <;> simp [h, Nat.lt_asymm h, Nat.ne_of_gt h]

/-- A base that is not a number has a finite power for the exponent zero only. -/
theorem not_finiteLimit_of_isNaN {x y : Float} (hx : isNaN x = true) (hy : magnitude y ≠ 0) :
    ¬ FiniteLimit x y := by
  have hlt : infinity < magnitude x := of_decide_eq_true hx
  have hbound : magnitude 1 < infinity := magnitude_one_lt
  rintro (h | ⟨h, -⟩ | ⟨h, -⟩ | ⟨h, -⟩ | ⟨-, h, -⟩ | ⟨h, -⟩) <;> omega

/-- With an exponent that is not a number, one alone has a finite power. -/
theorem finiteLimit_iff_of_isNaN {x y : Float} (hy : isNaN y = true) :
    FiniteLimit x y ↔ magnitude x = magnitude 1 ∧ isNegative x = false := by
  have hlt : infinity < magnitude y := of_decide_eq_true hy
  constructor
  · rintro (h | ⟨h, h', -⟩ | ⟨-, h⟩ | ⟨-, h, -⟩ | ⟨-, -, h, -⟩ | ⟨-, h, -⟩)
    · exact absurd (h ▸ hlt) (Nat.not_lt_zero _)
    · exact ⟨h, h'⟩
    all_goals omega
  · rintro ⟨h, h'⟩
    exact .one h h' hy

/-- An infinite base has a finite power for the exponents that are negative. -/
theorem finiteLimit_iff_of_infinite_base {x y : Float} (hx : magnitude x = infinity)
    (hy : magnitude y < infinity) (hzero : magnitude y ≠ 0) :
    FiniteLimit x y ↔ isNegative y = true := by
  have hbound : magnitude 1 < infinity := magnitude_one_lt
  constructor
  · rintro (h | ⟨h, -⟩ | ⟨h, -⟩ | ⟨h, -⟩ | ⟨-, -, h, -⟩ | ⟨-, -, h⟩)
    · exact absurd h hzero
    all_goals omega
  · exact .infiniteBase hx hy

/-- A power with an operand that is not finite is never refused, and it is finite just
where it is one of the finite limits. -/
theorem power_of_not_finite {x y : Float} (h : ¬ (isFinite x = true ∧ isFinite y = true)) :
    ∃ z, power x y = .ok z ∧ (isFinite z = true ↔ FiniteLimit x y) := by
  rw [power]
  by_cases hzero : magnitude y = 0
  · rw [if_pos hzero]
    exact ⟨_, rfl, iff_of_true isFinite_one (.zeroExponent hzero)⟩
  rw [if_neg hzero]
  by_cases hxnan : isNaN x = true
  · rw [if_pos hxnan]
    exact ⟨_, rfl, iff_of_false (Bool.eq_false_iff.1 (isFinite_of_isNaN hxnan))
      (not_finiteLimit_of_isNaN hxnan hzero)⟩
  rw [if_neg hxnan]
  have hxle : magnitude x ≤ infinity := Nat.le_of_not_lt fun hlt => hxnan (decide_eq_true hlt)
  by_cases hynan : isNaN y = true
  · rw [if_pos hynan, finiteLimit_iff_of_isNaN hynan]
    refine ⟨_, rfl, ?_⟩
    split
    next hone => exact iff_of_true isFinite_one (by simpa using hone)
    next hone =>
      exact iff_of_false (Bool.eq_false_iff.1 (isFinite_of_isNaN hynan)) (by simpa using hone)
  rw [if_neg hynan]
  by_cases hyinf : magnitude y = infinity
  · rw [if_pos hyinf]
    exact ⟨_, rfl, isFinite_toInfinite_iff hxle hyinf⟩
  rw [if_neg hyinf]
  have hylt : magnitude y < infinity :=
    Nat.lt_of_le_of_ne (Nat.le_of_not_lt fun hlt => hynan (decide_eq_true hlt)) hyinf
  by_cases hxinf : magnitude x = infinity
  · rw [if_pos hxinf, finiteLimit_iff_of_infinite_base hxinf hylt hzero]
    refine ⟨_, rfl, ?_⟩
    cases isNegative y with
    | true => exact iff_of_true (isFinite_ofMagnitude_zero _) rfl
    | false =>
      exact iff_of_false (Bool.eq_false_iff.1 (isFinite_ofMagnitude_infinity _))
        Bool.false_ne_true
  -- What is left are the powers with two finite operands.
  · exact absurd ⟨decide_eq_true (Nat.lt_of_le_of_ne hxle hxinf), decide_eq_true hylt⟩ h

end Power

end TagFormula
