import TagFormula.Number.Layout
import TagFormula.Number.Power
import TagFormula.Text.Quoted

/-!
# Why a formula has no value

Every cause has a code that does not depend on its wording, and a message. The
wordings are functions of their own, since the same sentence serves several
causes.
-/

namespace TagFormula

/-- What is wrong where a text stops being a formula. -/
inductive SyntaxFault where
  /-- A token that cannot stand there. -/
  | unexpectedToken (token : Text)
  /-- A character that begins no token. -/
  | unexpectedCharacter (c : Char)
  /-- The text ends too early. -/
  | unexpectedEnd
  /-- A number token that cannot be read. -/
  | unreadableNumber (token : Text)
deriving DecidableEq, Repr

/-- Where a computation leaves the finite numbers. -/
inductive NonFinite where
  /-- In the result as a whole. -/
  | result
  /-- In a number of the formula. -/
  | literal
  /-- In a power. -/
  | power (cause : Power.PowerError)
  /-- In the value of a tag, given as it is written. -/
  | tagValue (value : Text)
deriving DecidableEq, Repr

/-- Why a formula has no value. -/
inductive FormulaError where
  /-- Parentheses do not pair up; the position is that of a closing one without
  a partner, and missing when an opening one is left. -/
  | unbalanced (position : Option Nat)
  /-- Characters outside arithmetic, in the order they are first met. -/
  | invalidCharacters (characters : Text)
  /-- A divisor is zero. -/
  | divisionByZero
  /-- The text is not a formula. -/
  | malformed (fault : SyntaxFault) (position : Option Nat)
  /-- A number is infinite, undefined or not real. -/
  | notFinite (cause : NonFinite)
deriving DecidableEq, Repr

/-- The remark that gives a position. -/
def positionRemark (position : Option Int) : String :=
  match position with
  | some p => s!" (at position {p})"
  | none => ""

namespace SyntaxFault

/-- A fault in words. -/
def describe : SyntaxFault → String
  | unexpectedToken token => "unexpected " ++ String.ofList (Text.quoted token)
  | unexpectedCharacter c => "unexpected character " ++ String.ofList (Text.quoted [c])
  | unexpectedEnd => "unexpected end of expression"
  | unreadableNumber token => "invalid number " ++ String.ofList (Text.quoted token)

end SyntaxFault

namespace NonFinite

/-- The detail of a cause, empty where there is nothing to add. -/
def describe : NonFinite → String
  | result => ""
  | literal => "number too large"
  | power .zeroToNegative => "zero raised to a negative power"
  | power .overflow => "exponentiation overflow"
  | power .notReal => "negative base with fractional exponent"
  | tagValue value => "tag value " ++ String.ofList value

end NonFinite

namespace FormulaError

/-- Wording of unpaired parentheses. -/
def unbalancedWording (position : Option Int) : String :=
  match position with
  | some p => s!"Unbalanced parentheses (unexpected ')' at position {p})"
  | none => "Unbalanced parentheses"

/-- Wording of characters outside arithmetic. -/
def invalidCharactersWording (characters : Text) : String :=
  "Formula contains invalid characters: " ++ String.ofList (Text.quoted characters)

/-- Wording of a division by zero. -/
def divisionByZeroWording : String :=
  "Division by zero in formula"

/-- Wording of a text that is not a formula. -/
def malformedWording (detail : String) (position : Option Int) : String :=
  s!"Malformed expression: {detail}" ++ positionRemark position

/-- Wording of a number that is not finite; an empty detail is left out. -/
def notFiniteWording (detail : String) : String :=
  if detail.isEmpty then "Formula result is not a finite number"
  else s!"Formula result is not a finite number: {detail}"

/-- The code of an error. -/
def code : FormulaError → String
  | unbalanced _ => "unbalanced_parentheses"
  | invalidCharacters _ => "invalid_characters"
  | divisionByZero => "division_by_zero"
  | malformed _ _ => "malformed_expression"
  | notFinite _ => "non_finite_result"

/-- The message of an error. -/
def message : FormulaError → String
  | unbalanced position => unbalancedWording (position.map fun p => (p : Int))
  | invalidCharacters characters => invalidCharactersWording characters
  | divisionByZero => divisionByZeroWording
  | malformed fault position =>
    malformedWording fault.describe (position.map fun p => (p : Int))
  | notFinite cause => notFiniteWording cause.describe

end FormulaError

end TagFormula
