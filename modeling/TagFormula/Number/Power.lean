import TagFormula.Number.Binary64

/-!
# Powers of doubles

`power` raises one double to another. It refuses what has no real value and
what is too large: a negative power of zero, a finite result out of range, and
a negative base with an exponent that is not an integer. Powers that involve
infinity or something that is not a number are limits, and are not refused.

The magnitude of an ordinary power is that of the elementary function; the
cases above it fix every sign and every limit.
-/

namespace TagFormula.Power

open Binary64

/-- Why a power has no finite real value. -/
inductive PowerError where
  /-- Zero raised to a negative power. -/
  | zeroToNegative
  /-- The result is out of range. -/
  | overflow
  /-- A negative base with a fractional exponent. -/
  | notReal
deriving DecidableEq, Repr

/-- Whether a double is an odd integer. -/
def isOdd (x : Float) : Bool :=
  match integer? x with
  | some n => n % 2 == 1
  | none => false

/-- The double with the sign of `x` if `keep` is set, and a plus otherwise. -/
def withSign (keep : Bool) (x : Float) (m : Nat) : Float :=
  ofMagnitude (keep && isNegative x) m

/-- A power with a finite base and a finite exponent, neither of them zero. -/
def ordinary (base exponent : Float) : Except PowerError Float :=
  let size := Float.pow (ofMagnitude false (magnitude base)) exponent
  if isNegative base && (integer? exponent).isNone then
    .error (if isFinite size then .notReal else .overflow)
  else if isFinite size then .ok (withSign (isOdd exponent) base (magnitude size))
  else .error .overflow

/-- A finite base raised to an infinite power: the limit depends on which side of
one the base lies. -/
def toInfinite (base exponent : Float) : Float :=
  let one := magnitude 1
  if magnitude base = one then 1
  else if isNegative exponent == (one < magnitude base : Bool) then 0
  else ofMagnitude false infinity

/-- The power `base ^ exponent`. -/
def power (base exponent : Float) : Except PowerError Float :=
  let odd := isOdd exponent
  if magnitude exponent = 0 then .ok 1
  else if isNaN base then .ok base
  else if isNaN exponent then .ok (if magnitude base = magnitude 1 && !isNegative base then 1 else exponent)
  else if magnitude exponent = infinity then .ok (toInfinite base exponent)
  else if magnitude base = infinity then
    .ok (withSign odd base (if isNegative exponent then 0 else infinity))
  else if magnitude base = 0 then
    if isNegative exponent then .error .zeroToNegative else .ok (withSign odd base 0)
  else ordinary base exponent

end TagFormula.Power
