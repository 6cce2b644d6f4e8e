import TagFormula.Number.Layout

/-!
# Results

A result is an integer or a double. A double that denotes an integer of
magnitude below `2 ^ 53`, where every integer has a double of its own, counts
as that integer (`Number.ofFloat`). In plain notation (`Number.plain?`) a result
has no exponent, and a fractional part exactly when it is not integral.
-/

namespace TagFormula

/-- A numeric result. -/
inductive Number where
  /-- An integer. -/
  | integer (n : Int)
  /-- A double. -/
  | double (x : Float)

namespace Number

/-- The bound below which an integral double counts as an integer, two to the power
53. -/
def integerBound : Nat := 2 * Binary64.implicitBit

/-- A double as a result; zero loses its sign. -/
def ofFloat (x : Float) : Number :=
  match Binary64.integer? x with
  | some n => if n.natAbs < integerBound then .integer n else .double x
  | none => .double x

/-- A double in plain notation, and `none` when it is not a finite number. -/
def plainDouble? (x : Float) : Option Text :=
  if Binary64.isFinite x then
    match Binary64.integer? x with
    | some n => some (intText n)
    | none =>
      let digits := (Decimal.shortest (Binary64.magnitude x)).positional
      some (if Binary64.isNegative x then '-' :: digits else digits)
  else none

/-- A result in plain notation. -/
def plain? : Number → Option Text
  | .integer n => some (intText n)
  | .double x => plainDouble? x

end Number

end TagFormula
