import TagFormula.Formula.Error
import TagFormula.Number.Basic
import TagFormula.Tag
import TagFormula.Text.Blank

/-!
# From a formula to plain arithmetic

Before a formula is read, every tag in it is replaced by its value, the
parentheses are checked, one operator left dangling at the end is dropped, and
what remains may hold nothing but the characters of arithmetic. A formula that
is blank, before or after this, has no value and is no error.

The tags are replaced from the last to the first, so that replacing one never
moves the spans of those still to come.
-/

namespace TagFormula

namespace Formula

/-- A text with the span of a tag replaced by its value. -/
def replaceTag (out : Text) (t : Tag) : Except FormulaError Text :=
  match Number.plainDouble? t.value with
  | some digits => .ok (Slice.before out t.position ++ digits ++ Slice.after out t.stop)
  | none => .error (.notFinite (.tagValue (doubleText t.value)))

/-- A text with the spans of its tags replaced by their values. -/
def substitute (t : Text) (tags : List Tag) : Except FormulaError Text :=
  (Tag.descending tags).foldlM replaceTag t

/-- The position of the first closing parenthesis without a partner, or the number
of opening ones left over, in a text that begins at the offset `position` inside
`depth` open parentheses. -/
def balanceFrom (position depth : Nat) : Text → Except Nat Nat
  | [] => .ok depth
  | c :: rest =>
    if c = '(' then balanceFrom (position + 1) (depth + 1) rest
    else if c = ')' then
      match depth with
      | 0 => .error position
      | d + 1 => balanceFrom (position + 1) d rest
    else balanceFrom (position + 1) depth rest

/-- Checks that the parentheses of a text pair up. -/
def checkParentheses (t : Text) : Except FormulaError Unit :=
  match balanceFrom 0 0 t with
  | .ok 0 => .ok ()
  | .ok _ => .error (.unbalanced none)
  | .error position => .error (.unbalanced (some position))

/-- Whether a character is an operator that may dangle at the end. -/
def isTrailingOperator (c : Char) : Bool :=
  c = '+' || c = '-' || c = '*' || c = '/' || c = '^'

/-- A text without a single operator at its end and the blanks after it. A text
that ends otherwise is left alone, blanks included. -/
def stripTrailingOperator (t : Text) : Text :=
  match (Text.stripEnd t).getLast? with
  | some c => if isTrailingOperator c then (Text.stripEnd t).dropLast else t
  | none => t

/-- Whether a character belongs to plain arithmetic. -/
def isAllowed (c : Char) : Bool :=
  ('0' ≤ c && c ≤ '9') || isTrailingOperator c || c = '(' || c = ')' || c = '.' || c = ' '

/-- The characters of a text that do not belong to plain arithmetic, each once, in
the order they are first met. -/
def invalidCharacters (t : Text) : Text :=
  (t.filter fun c => !isAllowed c).eraseDups

/-- The plain arithmetic of a formula, or `none` when there is nothing to
compute. -/
def prepare (t : Text) (tags : List Tag) : Except FormulaError (Option Text) := do
  if Text.isBlank t then return none
  let substituted ← substitute t tags
  checkParentheses substituted
  let expression := stripTrailingOperator substituted
  if Text.isBlank expression then return none
  match invalidCharacters expression with
  | [] => return some expression
  | characters => throw (.invalidCharacters characters)

end Formula

end TagFormula
