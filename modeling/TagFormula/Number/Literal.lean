import TagFormula.Number.Decimal
import TagFormula.Text.Blank
import TagFormula.Text.Digit

/-!
# Reading numbers

Number texts may stand between blanks, start with a sign and use the decimal
digits of any script; a single underscore may separate two digits. The
information separators, blank elsewhere, are not accepted around a number.

A double is digits with an optional point and an optional exponent, or one of
the words `inf`, `infinity` and `nan` in any mixture of cases (`double?`). An
integer is digits only and not more than `maxIntegerDigits` of them
(`integer`). An integer with more digits cannot be written either (`isLong`).
-/

namespace TagFormula.Literal

open Text

/-- Whether a character may stand around a number. -/
def isPadding (c : Char) : Bool :=
  isBlankChar c && !(0x1C ≤ c.toNat && c.toNat ≤ 0x1F)

/-- A text without the blanks around a number. -/
def trimmed (t : Text) : Text :=
  ((t.dropWhile isPadding).reverse.dropWhile isPadding).reverse

/-- The digits after a first one, single underscores between them left out, and
the rest of the text. -/
def moreDigits : Text → Text × Text
  | [] => ([], [])
  | [c] => if isDigit c then ([c], []) else ([], [c])
  | c :: d :: rest =>
    if isDigit c then
      let (ds, r) := moreDigits (d :: rest)
      (c :: ds, r)
    else if c = '_' && isDigit d then
      let (ds, r) := moreDigits rest
      (d :: ds, r)
    else ([], c :: d :: rest)

/-- A run of digits and the rest of the text. -/
def digitRun (t : Text) : Text × Text :=
  match t with
  | c :: _ => if isDigit c then moreDigits t else ([], t)
  | [] => ([], [])

/-- Whether a sign means minus, and the text after it. -/
def sign (t : Text) : Bool × Text :=
  match t with
  | '-' :: rest => (true, rest)
  | '+' :: rest => (false, rest)
  | _ => (false, t)

/-- The power of ten of an exponent part, which may be missing; `none` when
anything else is left. -/
def exponentPart? : Text → Option Int
  | [] => some 0
  | c :: rest =>
    if c = 'e' || c = 'E' then
      let (negative, rest) := sign rest
      match digitRun rest with
      | ([], _) => none
      | (ds, []) => some (if negative then -(ofDigits ds : Int) else ofDigits ds)
      | _ => none
    else none

/-- An unsigned decimal with an optional point and exponent. -/
def decimal? (t : Text) : Option Decimal :=
  let (whole, rest) := digitRun t
  let (fraction, rest) := match rest with
    | '.' :: after => digitRun after
    | _ => ([], rest)
  if whole.isEmpty && fraction.isEmpty then none
  else (exponentPart? rest).map fun e =>
    ⟨ofDigits (whole ++ fraction), e - fraction.length⟩

/-- A word of letters in lower case, whatever their case in the text. -/
def isWord (word : String) (t : Text) : Bool :=
  t.map Char.toLower == word.toList

/-- Reads a double. -/
def double? (t : Text) : Option Float :=
  let (negative, rest) := sign (trimmed t)
  if isWord "inf" rest || isWord "infinity" rest then
    some (Binary64.ofMagnitude negative Binary64.infinity)
  else if isWord "nan" rest then some (Float.ofBits 0x7FF8000000000000)
  else (decimal? rest).map fun d => Binary64.ofMagnitude negative d.magnitude

/-- Why a text is not an integer. -/
inductive IntegerError where
  /-- It is not made of digits. -/
  | malformed
  /-- It has more digits than are read. -/
  | tooLong (digits : Nat)
deriving DecidableEq, Repr

/-- The number of digits up to which integers are read and written. -/
def maxIntegerDigits : Nat := 4300

/-- Whether an integer has more digits than are read and written. -/
def isLong (n : Int) : Bool :=
  Nat.pow 10 maxIntegerDigits ≤ n.natAbs

/-- What is said of an integer with more digits than are read or written. -/
def limitWording (detail : String) : String :=
  "Exceeds the limit (" ++ toString maxIntegerDigits ++
    " digits) for integer string conversion" ++ detail ++
    "; use sys.set_int_max_str_digits() to increase the limit"

/-- Reads an integer. The number of digits is judged before what follows them,
a misplaced underscore before both. -/
def integer (t : Text) : Except IntegerError Int :=
  let (negative, rest) := sign (trimmed t)
  let (ds, rest) := digitRun rest
  if ds.isEmpty || rest.head? = some '_' then .error .malformed
  else if maxIntegerDigits < ds.length then .error (.tooLong ds.length)
  else if !rest.isEmpty then .error .malformed
  else .ok (if negative then -(ofDigits ds : Int) else ofDigits ds)

theorem ten_le_pow {k : Nat} (h : k ≠ 0) : 10 ≤ Nat.pow 10 k :=
  Nat.le_self_pow h 10

/-- An integer of one digit is not too long. -/
theorem isLong_of_natAbs_lt {n : Int} (h : n.natAbs < 10) : isLong n = false :=
  decide_eq_false (Nat.not_le.2 (Nat.lt_of_lt_of_le h (ten_le_pow (by decide))))

end TagFormula.Literal
