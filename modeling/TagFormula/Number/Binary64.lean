/-!
# Doubles as numbers

A double is a sign and a magnitude, and the magnitude is the lower 63 bits of
the encoding read as a natural number. Magnitudes are ordered as the numbers
they denote: the finite ones lie below `infinity`, which denotes infinity, and
all larger ones are not numbers. A finite magnitude denotes
`significand m * 2 ^ exponent m`.

In the other direction `nearest` gives the magnitude closest to a fraction, a
half going to the even neighbour. The encoding makes this one formula: with
`q` the exponent and `s` the rounded significand of the fraction, the magnitude
is `(q + 1074) * 2 ^ 52 + s`, also below the normal numbers, where `q` is
`-1074`, and also when rounding carries `s` up to `2 ^ 53`.
-/

namespace TagFormula.Binary64

/-- The bit that holds the sign, two to the power 63. -/
def signBit : Nat := 0x8000000000000000

/-- The bit that a normal significand has above its 52 stored ones, two to the
power 52. -/
def implicitBit : Nat := 0x10000000000000

/-- The magnitude that denotes infinity, above all finite ones. -/
def infinity : Nat := 2047 * implicitBit

/-- Whether the sign bit is set. -/
def isNegative (x : Float) : Bool :=
  signBit ≤ x.toBits.toNat

/-- The encoding without the sign bit. -/
def magnitude (x : Float) : Nat :=
  x.toBits.toNat % signBit

/-- The double with a given sign and magnitude. -/
def ofMagnitude (negative : Bool) (m : Nat) : Float :=
  Float.ofBits (UInt64.ofNat (if negative then signBit + m else m))

/-- Whether a double is a real number. -/
def isFinite (x : Float) : Bool :=
  magnitude x < infinity

/-- Whether a double is not a number, not even an infinite one. -/
def isNaN (x : Float) : Bool :=
  infinity < magnitude x

/-- The integer significand of a finite magnitude. -/
def significand (m : Nat) : Nat :=
  if m < implicitBit then m else implicitBit + m % implicitBit

/-- The binary exponent that goes with the significand. -/
def exponent (m : Nat) : Int :=
  if m < implicitBit then -1074 else (m / implicitBit : Nat) - 1075

/-- The number a finite magnitude denotes, as a fraction. -/
def ratio (m : Nat) : Nat × Nat :=
  if 0 ≤ exponent m then (significand m <<< (exponent m).toNat, 1)
  else (significand m, 1 <<< (-exponent m).toNat)

/-- The integer closest to a fraction; a half goes to the even neighbour. -/
def roundedQuotient (num den : Nat) : Nat :=
  let q := num / den
  let r := num % den
  if 2 * r < den then q else if den < 2 * r then q + 1 else q + q % 2

/-- The binary exponent at which a fraction has a significand of 53 bits, or the
least exponent there is. -/
def exponentOf (num den : Nat) : Int :=
  let l : Int := (num.log2 : Int) - den.log2
  let reached := if 0 ≤ l then den <<< l.toNat ≤ num else den ≤ num <<< (-l).toNat
  max (-1074) (if reached then l - 52 else l - 53)

/-- The magnitude closest to a fraction, infinity from the largest finite one
plus half a unit on. -/
def nearest (num den : Nat) : Nat :=
  let q := exponentOf num den
  let s := if 0 ≤ q then roundedQuotient num (den <<< q.toNat)
    else roundedQuotient (num <<< (-q).toNat) den
  if num = 0 then 0 else min ((q + 1074).toNat * implicitBit + s) infinity

/-- The double closest to an integer, or `none` when that is infinite. -/
def ofInt? (n : Int) : Option Float :=
  let m := nearest n.natAbs 1
  if m < infinity then some (ofMagnitude (n < 0) m) else none

/-- A number with its fraction dropped, and `none` when there is no number. -/
def truncate? (x : Float) : Option Int :=
  if isFinite x then
    let n := (ratio (magnitude x)).1 / (ratio (magnitude x)).2
    some (if isNegative x then -n else n)
  else none

/-- The integer a double denotes, if it denotes one. -/
def integer? (x : Float) : Option Int :=
  if (ratio (magnitude x)).2 ∣ (ratio (magnitude x)).1 then truncate? x else none

/-- The encoding of one, of the largest finite double and of the least positive
one. -/
example : nearest 1 1 = 1023 * implicitBit ∧
    nearest (1 <<< 1024 - 1 <<< 971) 1 = infinity - 1 ∧
    nearest 1 (1 <<< 1074) = 1 ∧ nearest 1 (1 <<< 1075) = 0 := by
  decide +kernel

end TagFormula.Binary64
