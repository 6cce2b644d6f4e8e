import TagFormula.Text.Basic

/-!
# Expressions

The tree of a formula. Numbers are kept as written, so that reading them is part
of the evaluation. The postorder of a tree lists its nodes with every operator
after its operands; run on a stack of operands it computes the tree without
recursion on it.
-/

namespace TagFormula

/-- An operator with one operand. -/
inductive Sign where
  /-- Plus. -/
  | pos
  /-- Minus. -/
  | neg
deriving DecidableEq, Repr

/-- An operator with two operands. -/
inductive Operator where
  /-- Sum. -/
  | add
  /-- Difference. -/
  | sub
  /-- Product. -/
  | mul
  /-- Quotient. -/
  | div
  /-- Power. -/
  | pow
deriving DecidableEq, Repr

/-- The tree of a formula. -/
inductive Expr where
  /-- A number, as written. -/
  | number (literal : Text)
  /-- A signed operand. -/
  | signed (sign : Sign) (operand : Expr)
  /-- Two operands joined by an operator. -/
  | binary (op : Operator) (left right : Expr)
deriving DecidableEq, Repr

/-- A node of a tree without its operands. -/
inductive Node where
  /-- A number, as written. -/
  | number (literal : Text)
  /-- A sign. -/
  | signed (sign : Sign)
  /-- An operator. -/
  | binary (op : Operator)
deriving DecidableEq, Repr

namespace Expr

/-- The nodes of a tree in postorder, followed by `rest`. -/
def postorderOnto : Expr → List Node → List Node
  | number literal, rest => .number literal :: rest
  | signed sign operand, rest => operand.postorderOnto (.signed sign :: rest)
  | binary op left right, rest =>
    left.postorderOnto (right.postorderOnto (.binary op :: rest))

/-- The nodes of a tree, every operator after its operands. -/
def postorder (e : Expr) : List Node :=
  e.postorderOnto []

theorem postorderOnto_eq (e : Expr) (rest : List Node) :
    e.postorderOnto rest = e.postorder ++ rest := by
  unfold postorder
  induction e generalizing rest with
  | number literal => rfl
  | signed sign operand ih =>
    simp only [postorderOnto]
    rw [ih, ih [.signed sign]]
    simp
  | binary op left right ihl ihr =>
    simp only [postorderOnto]
    rw [ihl, ihl (right.postorderOnto [.binary op]), ihr, ihr [.binary op]]
    simp

@[simp] theorem postorder_number (literal : Text) :
    (number literal).postorder = [.number literal] := rfl

@[simp] theorem postorder_signed (sign : Sign) (operand : Expr) :
    (signed sign operand).postorder = operand.postorder ++ [.signed sign] :=
  postorderOnto_eq operand [.signed sign]

@[simp] theorem postorder_binary (op : Operator) (left right : Expr) :
    (binary op left right).postorder =
      left.postorder ++ (right.postorder ++ [.binary op]) := by
  show left.postorderOnto (right.postorderOnto [.binary op]) = _
  rw [postorderOnto_eq left, postorderOnto_eq right]

end Expr

end TagFormula
