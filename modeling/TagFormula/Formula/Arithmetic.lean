import TagFormula.Formula.Error
import TagFormula.Formula.Expr
import TagFormula.Number.Basic
import TagFormula.Number.Literal

/-!
# Evaluating expressions

Expressions are computed in doubles. The four operations are those of doubles,
so an infinity may appear on the way; what is refused on the way is a number
that is too large, a division by zero, and a power without a finite real value.
The result as a whole has to be finite.

`Expr.eval` says what a tree is worth by recursion on it: the left operand
comes first, then the right one, then the operation. `Expr.run` computes the
postorder of the tree on a stack of operands, and is what `evaluateExpression`
uses, since it is not bound to the depth of the tree.
-/

namespace TagFormula

namespace Sign

/-- A signed double. -/
def apply : Sign → Float → Float
  | pos, x => x
  | neg, x => -x

end Sign

namespace Operator

/-- Whether a double is zero, of either sign. -/
def isZero (x : Float) : Bool :=
  Binary64.magnitude x = 0

/-- An operation on doubles. -/
def apply : Operator → Float → Float → Except FormulaError Float
  | add, x, y => .ok (x + y)
  | sub, x, y => .ok (x - y)
  | mul, x, y => .ok (x * y)
  | div, x, y => if isZero y then .error .divisionByZero else .ok (x / y)
  | pow, x, y =>
    match Power.power x y with
    | .ok z => .ok z
    | .error cause => .error (.notFinite (.power cause))

end Operator

namespace Expr

/-- The value of a number as written. -/
def readLiteral (literal : Text) : Except FormulaError Float :=
  match Literal.double? literal with
  | some x => if Binary64.isFinite x then .ok x else .error (.notFinite .literal)
  | none => .error (.malformed (.unreadableNumber literal) none)

/-- The value of a tree. -/
def eval : Expr → Except FormulaError Float
  | number literal => readLiteral literal
  | signed sign operand => do
    let x ← operand.eval
    return sign.apply x
  | binary op left right => do
    let x ← left.eval
    let y ← right.eval
    op.apply x y

/-- What may happen while nodes are run on a stack. -/
inductive RunError where
  /-- An operator lacks operands, or the nodes leave other than one operand. -/
  | unbalancedStack
  /-- The formula has no value. -/
  | formula (error : FormulaError)
deriving DecidableEq, Repr

/-- Runs a node on a stack of operands, the last one first. -/
def runNode : Node → List Float → Except RunError (List Float)
  | .number literal, stack =>
    match readLiteral literal with
    | .ok x => .ok (x :: stack)
    | .error e => .error (.formula e)
  | .signed sign, x :: stack => .ok (sign.apply x :: stack)
  | .binary op, y :: x :: stack =>
    match op.apply x y with
    | .ok z => .ok (z :: stack)
    | .error e => .error (.formula e)
  | _, _ => .error .unbalancedStack

/-- Runs nodes one after the other. -/
def runNodes : List Node → List Float → Except RunError (List Float)
  | [], stack => .ok stack
  | node :: nodes, stack =>
    match runNode node stack with
    | .ok stack => runNodes nodes stack
    | .error e => .error e

/-- Runs the postorder of a tree on an empty stack. -/
def run (e : Expr) : Except RunError Float :=
  match runNodes e.postorder [] with
  | .ok [x] => .ok x
  | .ok _ => .error .unbalancedStack
  | .error error => .error error

theorem runNodes_append (first second : List Node) (stack : List Float) :
    runNodes (first ++ second) stack = (runNodes first stack).bind (runNodes second) := by
  induction first generalizing stack with
  | nil => rfl
  | cons node nodes ih =>
    simp only [List.cons_append, runNodes]
    cases runNode node stack with
    | ok stack' => exact ih stack'
    | error e => rfl

/-- Running the postorder of a tree leaves its value on the stack, or stops with
its error. -/
theorem runNodes_postorder (e : Expr) (stack : List Float) :
    runNodes e.postorder stack =
      match e.eval with
      | .ok x => .ok (x :: stack)
      | .error error => .error (.formula error) := by
  induction e generalizing stack with
  | number literal =>
    simp only [postorder_number, runNodes, runNode, eval]
    cases readLiteral literal <;> rfl
  | signed sign operand ih =>
    rw [postorder_signed, runNodes_append, ih]
    simp only [eval]
    cases operand.eval <;> rfl
  | binary op left right ihl ihr =>
    rw [postorder_binary, runNodes_append, ihl]
    simp only [eval]
    cases left.eval with
    | error error => rfl
    | ok x =>
      show runNodes (right.postorder ++ [.binary op]) (x :: stack) = _
      rw [runNodes_append, ihr]
      cases right.eval with
      | error error => rfl
      | ok y =>
        show runNodes [.binary op] (y :: x :: stack) =
          match op.apply x y with
          | .ok z => .ok (z :: stack)
          | .error error => .error (.formula error)
        simp only [runNodes, runNode]
        cases op.apply x y <;> rfl

/-- The stack and the recursion agree. -/
theorem run_eq_eval (e : Expr) :
    e.run = match e.eval with
      | .ok x => .ok x
      | .error error => .error (.formula error) := by
  unfold run
  rw [runNodes_postorder]
  cases e.eval <;> rfl

/-- The error of a run as the error of a formula; a run that ends with other than
one operand counts as a text without an end. -/
def RunError.toFormulaError : RunError → FormulaError
  | unbalancedStack => .malformed .unexpectedEnd none
  | formula error => error

/-- The finite value of a tree. -/
def result (e : Expr) : Except FormulaError Number :=
  match e.run with
  | .ok x => if Binary64.isFinite x then .ok (Number.ofFloat x) else .error (.notFinite .result)
  | .error error => .error error.toFormulaError

end Expr

end TagFormula
