import TagFormula.Json.Basic
import TagFormula.Number.Basic
import TagFormula.Number.Literal

/-!
# Numbers from JSON values

Where a number is wanted, a value of another kind is taken for one if it can be
read so. A truth value counts as zero or one and a string is read as a number.
For an integer a double loses its decimal places; for a double an integer is
rounded, unless it is too large.

A value that gives no number is refused for its kind, or for what it says
(`ConversionError`). In the other direction every number is a value (`ofNumber`).
-/

namespace TagFormula

/-- Why a value gives no number. -/
inductive ConversionError where
  /-- Values of this kind are no integers. -/
  | notInteger (kind : String)
  /-- The text is not an integer. -/
  | integerText (text : Text) (cause : Literal.IntegerError)
  /-- An infinity has no integer part. -/
  | infinite
  /-- An undefined number has no integer part. -/
  | undefined
  /-- Values of this kind are no doubles. -/
  | notDouble (kind : String)
  /-- The text is not a double. -/
  | doubleText (text : Text)
  /-- The integer exceeds all doubles. -/
  | tooLarge
deriving DecidableEq, Repr

namespace ConversionError

/-- How much of a text that is not an integer is shown. -/
def shownLength : Nat := 200

/-- The message of an error. -/
def message : ConversionError → String
  | notInteger kind =>
    "int() argument must be a string, a bytes-like object or a real number, not '" ++ kind ++ "'"
  | integerText text .malformed =>
    "invalid literal for int() with base 10: " ++
      String.ofList ((Text.quoted text).take shownLength)
  | integerText _ (.tooLong digits) =>
    Literal.limitWording (": value has " ++ toString digits ++ " digits")
  | infinite => "cannot convert float infinity to integer"
  | undefined => "cannot convert float NaN to integer"
  | notDouble kind =>
    "float() argument must be a string or a real number, not '" ++ kind ++ "'"
  | doubleText text => "could not convert string to float: " ++ String.ofList (Text.quoted text)
  | tooLarge => "int too large to convert to float"

end ConversionError

namespace Json

/-- A number as a value. -/
def ofNumber : Number → Json
  | .integer n => integer n
  | .double x => double x

/-- The integer a value stands for. -/
def toInteger : Json → Except ConversionError Int
  | integer n => .ok n
  | bool b => .ok (if b then 1 else 0)
  | double x =>
    match Binary64.truncate? x with
    | some n => .ok n
    | none => .error (if Binary64.isNaN x then .undefined else .infinite)
  | string s =>
    match Literal.integer s.text with
    | .ok n => .ok n
    | .error cause => .error (.integerText s.text cause)
  | j => .error (.notInteger j.kind)

/-- The double a value stands for. -/
def toDouble : Json → Except ConversionError Float
  | double x => .ok x
  | bool b => .ok (if b then 1 else 0)
  | integer n =>
    match Binary64.ofInt? n with
    | some x => .ok x
    | none => .error .tooLarge
  | string s =>
    match Literal.double? s.text with
    | some x => .ok x
    | none => .error (.doubleText s.text)
  | j => .error (.notDouble j.kind)

@[simp] theorem toInteger_integer (n : Int) : toInteger (integer n) = .ok n := rfl

@[simp] theorem toDouble_double (x : Float) : toDouble (double x) = .ok x := rfl

end Json

end TagFormula
