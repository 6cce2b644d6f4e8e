import TagFormula.Number.Binary64

/-!
# Decimals

A decimal is a natural number times a power of ten. `Decimal.magnitude` reads
one as a double, correctly rounded, and `Decimal.shortest` writes a double as
the decimal on the coarsest power-of-ten grid that reads back as the same
double. Of a grid only the two points next to the value can do so when any can;
of two the nearer is taken, and the even one when they are equally near.

No double needs more than seventeen digits, so the search stops after the grids
that could give that many; the exact expansion stands behind it, which makes
`Decimal.shortest` read back for every finite magnitude without that count.
-/

namespace TagFormula

/-- The number `digits * 10 ^ exponent`. -/
structure Decimal where
  /-- The integer factor. -/
  digits : Nat
  /-- The power of ten. -/
  exponent : Int
deriving DecidableEq, Repr

namespace Decimal

/-- A fraction divided by a power of ten, as a fraction. -/
def scaled (num den : Nat) (k : Int) : Nat × Nat :=
  if 0 ≤ k then (num, den * Nat.pow 10 k.toNat) else (num * Nat.pow 10 (-k).toNat, den)

/-- A decimal as a fraction. -/
def ratio (d : Decimal) : Nat × Nat :=
  scaled d.digits 1 (-d.exponent)

/-- The magnitude of the double closest to a decimal. Powers of ten that are far
out of range are decided without being computed. -/
def magnitude (d : Decimal) : Nat :=
  if d.digits = 0 then 0
  else if 400 < d.exponent then Binary64.infinity
  else if d.exponent + d.digits.log2 + 1 < -400 then 0
  else Binary64.nearest d.ratio.1 d.ratio.2

/-- An upper bound for the exponent of the first digit of a fraction; 0.30103 is
slightly more than the logarithm of two. -/
def topExponent (num den : Nat) : Int :=
  ((num.log2 : Int) - den.log2 + 1) * 30103 / 100000 + 1

/-- The point of the grid of multiples of `10 ^ k` that reads back as the
magnitude `m`, if there is one. -/
def onGrid? (m : Nat) (k : Int) : Option Decimal :=
  let (num, den) := scaled (Binary64.ratio m).1 (Binary64.ratio m).2 k
  let low : Decimal := ⟨num / den, k⟩
  let high : Decimal := ⟨num / den + 1, k⟩
  let nearer := if Binary64.roundedQuotient num den = num / den then low else high
  if nearer.magnitude = m then some nearer
  else if low.magnitude = m then some low
  else if high.magnitude = m then some high
  else none

/-- A finite magnitude as a decimal, digit for digit. -/
def exact (m : Nat) : Decimal :=
  let e := Binary64.exponent m
  if 0 ≤ e then ⟨Binary64.significand m <<< e.toNat, 0⟩
  else ⟨Binary64.significand m * Nat.pow 5 (-e).toNat, e⟩

/-- The shortest decimal that reads back as a finite magnitude, and of these the
nearest. -/
def shortest (m : Nat) : Decimal :=
  let top := topExponent (Binary64.ratio m).1 (Binary64.ratio m).2
  ((List.range 22).findSome? fun (i : Nat) => onGrid? m (top - i)).getD (exact m)

/-- A point found on a grid reads back. -/
theorem magnitude_of_onGrid? {m : Nat} {k : Int} {d : Decimal} (h : onGrid? m k = some d) :
    d.magnitude = m := by
  unfold onGrid? at h
  grind

/-- The value rounded to the given number of significant digits, a half going to
the even neighbour. -/
def rounded (significant m : Nat) : Decimal :=
  let (num, den) := Binary64.ratio m
  let top := topExponent num den
  let hasDigits (k : Int) : Bool :=
    let (n, d) := scaled num den k
    Nat.pow 10 (significant - 1) ≤ n / d
  match ((List.range (significant + 5)).map fun (i : Nat) => top - i).find? hasDigits with
  | some k =>
    let (n, d) := scaled num den k
    ⟨Binary64.roundedQuotient n d, k⟩
  | none => ⟨0, 0⟩

/-- A tenth and the least positive double have one digit, a third has sixteen. -/
example : shortest (Binary64.nearest 1 10) = ⟨1, -1⟩ ∧ shortest 1 = ⟨5, -324⟩ ∧
    shortest (Binary64.nearest 1 3) = ⟨3333333333333333, -16⟩ := by
  decide +kernel

end Decimal

end TagFormula
