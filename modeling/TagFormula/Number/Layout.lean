import TagFormula.Number.Decimal
import TagFormula.Text.Basic

/-!
# How numbers are written

Three ways to write a double. `doubleText` is the shortest form that reads back,
with an exponent when the first digit lies below the fourth decimal place or at
the seventeenth place or above, and otherwise with at least one decimal place.
`briefText` keeps six significant digits and drops zeros at the end; it takes
an exponent outside the range from the fourth decimal place to the sixth place.
`Decimal.positional` never takes an exponent.

The first two are one function with the two records `textFormat` and
`briefFormat`.
-/

namespace TagFormula

/-- The digits of a natural number, without zeros at the front. -/
def natText (n : Nat) : Text :=
  Nat.toDigits 10 n

/-- An integer in decimal. -/
def intText (n : Int) : Text :=
  if n < 0 then '-' :: natText n.natAbs else natText n.natAbs

namespace Decimal

/-- A decimal in positional notation, with a point only where digits follow it. -/
def positional (d : Decimal) : Text :=
  let ds := natText d.digits
  if 0 ≤ d.exponent then ds ++ List.replicate d.exponent.toNat '0'
  else
    let places := (-d.exponent).toNat
    let padded := List.replicate (places + 1 - ds.length) '0' ++ ds
    padded.take (padded.length - places) ++ '.' :: padded.drop (padded.length - places)

/-- The power of ten of the first digit. -/
def leadExponent (d : Decimal) : Int :=
  (natText d.digits).length + d.exponent - 1

/-- A decimal with one digit before the point and an exponent of at least two
digits with its sign. -/
def scientific (d : Decimal) : Text :=
  let mantissa := match natText d.digits with
    | first :: second :: rest => first :: '.' :: second :: rest
    | ds => ds
  let e := d.leadExponent
  let size := natText e.natAbs
  mantissa ++ 'e' :: (if e < 0 then '-' else '+') ::
    (List.replicate (2 - size.length) '0' ++ size)

/-- A decimal without zeros at the end of its digits. -/
def trimmed (d : Decimal) : Decimal :=
  let ds := natText d.digits
  let zeros := (ds.reverse.takeWhile (· = '0')).length
  if d.digits = 0 then d else ⟨d.digits / Nat.pow 10 zeros, d.exponent + zeros⟩

end Decimal

/-- The choices of a notation for doubles. -/
structure FloatFormat where
  /-- The exponent of the first digit from which on an exponent is written. -/
  scientificFrom : Int
  /-- Whether an integral value ends in a point and a zero. -/
  pointZero : Bool

namespace FloatFormat

/-- Shortest texts are positional below the seventeenth place and show that they
stand for a double. -/
def textFormat : FloatFormat := ⟨16, true⟩

/-- Brief texts are positional below the seventh place and show integers bare. -/
def briefFormat : FloatFormat := ⟨6, false⟩

/-- Writes a decimal other than zero; below the fourth decimal place every
format takes an exponent. -/
def write (f : FloatFormat) (d : Decimal) : Text :=
  if d.leadExponent < -4 ∨ f.scientificFrom ≤ d.leadExponent then d.scientific
  else if f.pointZero ∧ 0 ≤ d.exponent then d.positional ++ ['.', '0']
  else d.positional

/-- Writes a double, the finite ones other than zero by the decimal that
`digits` chooses for their magnitude. -/
def render (f : FloatFormat) (digits : Nat → Decimal) (x : Float) : Text :=
  let m := Binary64.magnitude x
  if Binary64.isNaN x then ['n', 'a', 'n']
  else (if Binary64.isNegative x then ['-'] else []) ++
    (if m = Binary64.infinity then ['i', 'n', 'f']
     else if m = 0 then (if f.pointZero then ['0', '.', '0'] else ['0'])
     else f.write (digits m))

end FloatFormat

/-- The shortest text that reads back as the double. -/
def doubleText (x : Float) : Text :=
  FloatFormat.textFormat.render Decimal.shortest x

/-- A double to six significant digits. -/
def briefText (x : Float) : Text :=
  FloatFormat.briefFormat.render (fun m => (Decimal.rounded 6 m).trimmed) x

/-- Where the notation changes. -/
example : (Decimal.mk 1 15).leadExponent = 15 ∧
    FloatFormat.textFormat.write ⟨1, 15⟩ = "1000000000000000.0".toList ∧
    FloatFormat.textFormat.write ⟨1, 16⟩ = "1e+16".toList ∧
    FloatFormat.textFormat.write ⟨15, -5⟩ = "0.00015".toList ∧
    FloatFormat.textFormat.write ⟨1, -5⟩ = "1e-05".toList ∧
    FloatFormat.briefFormat.write ⟨123457, 1⟩ = "1.23457e+06".toList := by
  decide +kernel

end TagFormula
