import Mathlib
import TagFormula.Proofs.Number.NonFinite

/-!
# The sign of a double

Negating a number changes its sign bit and nothing else (`toNat_toBits_neg`). Negation is
given on the unpacked form, so the bits are taken apart and put together again here. What is
packed has the fields that were unpacked (`pack_subnormal`, `pack_normal`), since the
significand of a normal number has its implicit bit and that of a subnormal one has not.
-/

namespace TagFormula

namespace Binary64

open Float.Model
open Float.Model.UnpackedFloat

theorem toNat_pos_of_ne {m : BitVec 52} (h : m ≠ 0#52) : 0 < m.toNat :=
  Nat.pos_of_ne_zero fun hzero => h (BitVec.toNat_inj.1 hzero)

theorem toNat_implicit_append (m : BitVec 52) : (1#1 ++ m).toNat = implicitBit + m.toNat := by
  rw [BitVec.toNat_append, ← Nat.shiftLeft_add_eq_or_of_lt m.isLt]
  rfl

/-- The three fields of an encoding, read as one number. -/
theorem toNat_packComponents (s : UnpackedFloat.Sign) (e : BitVec 11) (m : BitVec 52) :
    (packComponents .binary64 s e m).toNat =
      s.toBitVec.toNat * signBit + (e.toNat * implicitBit + m.toNat) := by
  have hvec : packComponents .binary64 s e m = (s.toBitVec ++ e) ++ m := rfl
  rw [hvec, BitVec.toNat_append, BitVec.toNat_append, ← Nat.shiftLeft_add_eq_or_of_lt e.isLt,
    ← Nat.shiftLeft_add_eq_or_of_lt m.isLt, Nat.shiftLeft_eq, Nat.shiftLeft_eq, signBit,
    implicitBit]
  omega

/-- How a finite value is packed, in numbers. -/
theorem pack_finite (s : UnpackedFloat.Sign) (m : Nat) (e : Int) (hm : 0 < m) :
    UnpackedFloat.pack .binary64 (.finite s m e hm) =
      if 2048 ≤ (e + 1023 + 52).toNat + 1 then packedInfinity .binary64 s
      else if m.log2 + 1 = 53 then
        packComponents .binary64 s (BitVec.ofNat 11 (e + 1023 + 52).toNat) (BitVec.ofNat 52 m)
      else packComponents .binary64 s 0#11 (BitVec.ofNat 52 m) :=
  rfl

/-- A significand without the implicit bit, at the least exponent. -/
theorem pack_subnormal (s : UnpackedFloat.Sign) {m : BitVec 52} (hm : 0 < m.toNat) :
    UnpackedFloat.pack .binary64 (.finite s m.toNat (-1074) hm) =
      packComponents .binary64 s 0#11 m := by
  have hlog : m.toNat.log2 < 52 := (Nat.log2_lt (Nat.ne_of_gt hm)).2 m.isLt
  rw [pack_finite, if_neg (by decide), if_neg (by omega), BitVec.ofNat_toNat, BitVec.setWidth_eq]

/-- A significand with the implicit bit, at any exponent but that of infinity. -/
theorem pack_normal (s : UnpackedFloat.Sign) {e : BitVec 11} (he : e ≠ -1#11) (m : BitVec 52)
    (hm : 0 < (1#1 ++ m).toNat) :
    UnpackedFloat.pack .binary64 (.finite s (1#1 ++ m).toNat (e.toNat - 1075) hm) =
      packComponents .binary64 s e m := by
  have hexponent : ((e.toNat : Int) - 1075 + 1023 + 52).toNat = e.toNat := by omega
  have hne : e.toNat ≠ 2047 := fun h => he (BitVec.toNat_inj.1 h)
  have hbig : ¬ 2048 ≤ e.toNat + 1 := by
    have := e.isLt
    omega
  have hlog : (1#1 ++ m).toNat.log2 = 52 := by
    have hlt := m.isLt
    rw [Nat.log2_eq_iff hm.ne', toNat_implicit_append, implicitBit]
    omega
  have hfield : BitVec.ofNat 52 (1#1 ++ m).toNat = m := by
    have hlt := m.isLt
    rw [← BitVec.toNat_inj, BitVec.toNat_ofNat, toNat_implicit_append, implicitBit]
    omega
  rw [pack_finite, hexponent, if_neg hbig, hlog, if_pos rfl, hfield, BitVec.ofNat_toNat,
    BitVec.setWidth_eq]

/-- How an encoding is unpacked, in numbers. -/
theorem unpack_eq (b : BitVec 64) :
    UnpackedFloat.unpack .binary64 b =
      if @unpackExponent .binary64 b = -1#11 then
        if @unpackMantissa .binary64 b = 0#52 then
          .infinity (.ofBitVec (@unpackSign .binary64 b))
        else .notANumber
      else if @unpackExponent .binary64 b = 0#11 then
        if h : @unpackMantissa .binary64 b = 0#52 then
          .zero (.ofBitVec (@unpackSign .binary64 b))
        else
          .finite (.ofBitVec (@unpackSign .binary64 b)) (@unpackMantissa .binary64 b).toNat
            ((@unpackExponent .binary64 b).toNat - (1023 + 52) + 1) (toNat_pos_of_ne h)
      else
        .finite (.ofBitVec (@unpackSign .binary64 b)) (1#1 ++ @unpackMantissa .binary64 b).toNat
          ((@unpackExponent .binary64 b).toNat - (1023 + 52))
          (toNat_implicit_append _ ▸ Nat.add_pos_left (by decide) _) :=
  rfl

theorem pack_neg_unpack {b : BitVec 64} (h : @unpackExponent .binary64 b ≠ -1#11) :
    UnpackedFloat.pack .binary64 (UnpackedFloat.unpack .binary64 b).neg =
      packComponents .binary64 (-UnpackedFloat.Sign.ofBitVec (@unpackSign .binary64 b))
        (@unpackExponent .binary64 b) (@unpackMantissa .binary64 b) := by
  rw [unpack_eq, if_neg h]
  by_cases hzero : @unpackExponent .binary64 b = 0#11
  · rw [if_pos hzero]
    by_cases hm : @unpackMantissa .binary64 b = 0#52
    · rw [dif_pos hm, hzero, hm]
      rfl
    · rw [dif_neg hm, hzero]
      exact pack_subnormal _ (toNat_pos_of_ne hm)
  · rw [if_neg hzero]
    exact pack_normal _ h _ _

/-! ## Signs -/

theorem toNat_unpackExponent (b : BitVec 64) :
    (@unpackExponent .binary64 b).toNat = b.toNat / implicitBit % 2048 := by
  simp [unpackExponent, Nat.shiftRight_eq_div_pow, implicitBit]

theorem toNat_unpackMantissa (b : BitVec 64) :
    (@unpackMantissa .binary64 b).toNat = b.toNat % implicitBit := by
  simp [unpackMantissa, implicitBit]

theorem toNat_unpackSign (b : BitVec 64) :
    (@unpackSign .binary64 b).toNat = b.toNat / signBit := by
  have hlt := b.isLt
  simp [unpackSign, Nat.shiftRight_eq_div_pow, signBit]
  omega

theorem toNat_neg_sign (s : BitVec 1) :
    (-UnpackedFloat.Sign.ofBitVec s).toBitVec.toNat = 1 - s.toNat := by
  revert s
  decide

/-- The negation of a number has the other sign bit and the same bits apart from it. -/
theorem toNat_toBits_neg {x : Float} (h : isFinite x = true) :
    (-x).toBits.toNat = (1 - x.toBits.toNat / signBit) * signBit + magnitude x := by
  have hexponent : @unpackExponent .binary64 x.toBits.toBitVec ≠ -1#11 :=
    mt (unpackExponent_eq_iff x).1 (Nat.not_le.2 (of_decide_eq_true h))
  have hbits : (-x).toBits.toBitVec =
      UnpackedFloat.pack .binary64 (UnpackedFloat.unpack .binary64 x.toBits.toBitVec).neg := rfl
  have hmagnitude : x.toBits.toNat / implicitBit % 2048 * implicitBit +
      x.toBits.toNat % implicitBit = magnitude x := by
    rw [magnitude, signBit, implicitBit]
    omega
  rw [← UInt64.toNat_toBitVec, hbits, pack_neg_unpack hexponent, toNat_packComponents,
    toNat_neg_sign, toNat_unpackSign, toNat_unpackExponent, toNat_unpackMantissa,
    UInt64.toNat_toBitVec, hmagnitude]

section

variable {x : Float} (h : isFinite x = true)
include h

theorem magnitude_neg : magnitude (-x) = magnitude x := by
  have hlt : magnitude x < signBit := Nat.mod_lt _ (by decide)
  rw [magnitude, toNat_toBits_neg h, Nat.mul_add_mod_self_right, Nat.mod_eq_of_lt hlt]

theorem isNegative_neg : isNegative (-x) = !isNegative x := by
  have hlt : magnitude x < signBit := Nat.mod_lt _ (by decide)
  have hbits := x.toBits.toNat_lt
  rw [isNegative, isNegative, toNat_toBits_neg h, ← decide_not, decide_eq_decide, Nat.not_le]
  simp only [signBit] at *
  omega

end

end Binary64

end TagFormula
