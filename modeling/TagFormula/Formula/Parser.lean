import TagFormula.Formula.Error
import TagFormula.Formula.Expr
import TagFormula.Formula.Token

/-!
# Reading expressions

Sums and products associate to the left, products bind closer than sums, signs
closer than products, and powers closer than signs on their left; the exponent
of a power may be signed and may itself be a power, so powers associate to the
right. Parentheses leave no trace in the tree.

The tokens are read one after the other. Either an operand is expected, or one
has just been completed; what surrounds the place is kept as a list of open
contexts (`Frame`), innermost first. A token that completes an operand first
closes the contexts that bind at least as closely as it does. A fault is
reported at the first token that cannot stand where it does, and the end of the
text is a fault at the start of the last token.
-/

namespace TagFormula

/-- An open context, which waits for the operand being read. -/
inductive Frame where
  /-- A sign that waits for its operand. -/
  | signed (sign : Sign)
  /-- An operator with its left operand, which waits for the right one. -/
  | binary (op : Operator) (left : Expr)
  /-- An open parenthesis. -/
  | group
deriving DecidableEq, Repr

namespace Operator

/-- How closely an operator binds to the operand on its left. -/
def level : Operator → Nat
  | add | sub => 1
  | mul | div => 2
  | pow => 4

end Operator

namespace Frame

/-- How closely a context binds to the operand it waits for, zero for an open
parenthesis. The exponent of a power is bound like the operand of a sign. -/
def level : Frame → Nat
  | signed _ => 3
  | binary .pow _ => 3
  | binary op _ => op.level
  | group => 0

/-- The tree of a context and its operand. -/
def fill : Frame → Expr → Expr
  | signed sign, e => .signed sign e
  | binary op left, e => .binary op left e
  | group, e => e

end Frame

namespace Expr

/-- How far a text has been read: the open contexts, and the operand just
completed unless one is expected. -/
inductive Reading where
  /-- An operand is expected. -/
  | before (frames : List Frame)
  /-- An operand has been completed. -/
  | after (frames : List Frame) (e : Expr)
deriving DecidableEq, Repr

/-- Closes the contexts that bind at least as closely as `level`, which is not
zero, up to the innermost open parenthesis. -/
def close (level : Nat) : List Frame → Expr → List Frame × Expr
  | [], e => ([], e)
  | f :: frames, e => if level ≤ f.level then close level frames (f.fill e) else (f :: frames, e)

namespace Reading

/-- Reads a token, and gives `none` where it cannot stand. -/
def step? : Reading → Token → Option Reading
  | before frames, .number literal => some (after frames (.number literal))
  | before frames, .plus => some (before (.signed .pos :: frames))
  | before frames, .minus => some (before (.signed .neg :: frames))
  | before frames, .opening => some (before (.group :: frames))
  | before _, _ => none
  | after frames e, .plus => some (operator frames e .add)
  | after frames e, .minus => some (operator frames e .sub)
  | after frames e, .times => some (operator frames e .mul)
  | after frames e, .slash => some (operator frames e .div)
  | after frames e, .caret => some (operator frames e .pow)
  | after frames e, .closing =>
    match close 1 frames e with
    | (.group :: frames, e) => some (after frames e)
    | _ => none
  | after _ _, _ => none
where
  /-- Reads an operator after an operand. -/
  operator (frames : List Frame) (e : Expr) (op : Operator) : Reading :=
    let (frames, e) := close op.level frames e
    before (.binary op e :: frames)

/-- The tree that has been read, if the text may end here. -/
def finish? : Reading → Option Expr
  | before _ => none
  | after frames e =>
    match close 1 frames e with
    | ([], e) => some e
    | _ => none

end Reading

/-- The fault of a token that cannot stand where it does. -/
def tokenFault : Token → SyntaxFault
  | .foreign c => .unexpectedCharacter c
  | token => .unexpectedToken token.text

/-- Reads tokens on from a place; `last` is the offset of the token before it. -/
def parseFrom (last : Nat) : Reading → List Positioned → Except FormulaError Expr
  | reading, [] =>
    match reading.finish? with
    | some e => .ok e
    | none => .error (.malformed .unexpectedEnd (some last))
  | reading, p :: rest =>
    match reading.step? p.token with
    | some reading => parseFrom p.position reading rest
    | none => .error (.malformed (tokenFault p.token) (some p.position))

/-- The tree of a text. -/
def parse (t : Text) : Except FormulaError Expr :=
  parseFrom 0 (.before []) (Token.scan t)

end Expr

end TagFormula
