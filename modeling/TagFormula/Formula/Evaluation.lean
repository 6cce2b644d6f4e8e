import TagFormula.Formula.Arithmetic
import TagFormula.Formula.Parser
import TagFormula.Formula.Preparation

/-!
# Evaluations

The outcome of a formula, ready to be shown: a value, an error, or neither when
there is nothing to compute yet. `calculate` gives an outcome for every formula;
`evaluate` gives the value alone.
-/

namespace TagFormula

/-- The outcome of a formula. -/
inductive Evaluation where
  /-- There is nothing to compute. -/
  | blank
  /-- The formula has a value; the expression is the arithmetic it came from. -/
  | value (number : Number) (expression : Text)
  /-- The formula has no value; the expression is missing when the formula did not
  get as far as plain arithmetic. -/
  | failure (error : FormulaError) (expression : Option Text)

namespace Formula

/-- The value of plain arithmetic. -/
def evaluateExpression (t : Text) : Except FormulaError Number :=
  match Expr.parse t with
  | .ok e => e.result
  | .error error => .error error

/-- The value of a formula with tags, or `none` when there is nothing to compute. -/
def evaluate (t : Text) (tags : List Tag) : Except FormulaError (Option Number) :=
  match prepare t tags with
  | .ok none => .ok none
  | .ok (some expression) => (evaluateExpression expression).map some
  | .error error => .error error

/-- The outcome of a formula with tags. -/
def calculate (t : Text) (tags : List Tag) : Evaluation :=
  match prepare t tags with
  | .ok none => .blank
  | .ok (some expression) =>
    match evaluateExpression expression with
    | .ok number => .value number expression
    | .error error => .failure error (some expression)
  | .error error => .failure error none

end Formula

namespace Evaluation

/-- The value, if there is one. -/
def number? : Evaluation → Option Number
  | value number _ => some number
  | _ => none

/-- The error, if there is one. -/
def error? : Evaluation → Option FormulaError
  | failure error _ => some error
  | _ => none

/-- The arithmetic that was evaluated, if the formula got as far as that. -/
def expression? : Evaluation → Option Text
  | blank => none
  | value _ expression => some expression
  | failure _ expression => expression

/-- Whether there is no error. -/
def isOk (e : Evaluation) : Bool :=
  e.error?.isNone

/-- Whether there is a value. -/
def hasValue (e : Evaluation) : Bool :=
  e.number?.isSome

/-- An outcome as it is shown; the value of a formula is finite, so it has a plain
form. -/
def display : Evaluation → Text
  | blank => "(no value)".toList
  | value number _ => number.plain?.getD []
  | failure error _ => "Error: ".toList ++ error.message.toList

end Evaluation

end TagFormula
