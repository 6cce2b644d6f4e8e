import TagFormula.Text.Printable

/-!
# Keys

A key is given by its name. Digits, operators and parentheses have the character
itself as their name, and so has every other character key; a character that is
not printable is no key. Editing keys have names of several letters. A name that
stands for no key is kept as `other`, so that a session can say it did not
recognise it.
-/

namespace TagFormula

/-- A key of the keyboard. -/
inductive Key where
  /-- An operator or a parenthesis. -/
  | operator (c : Char)
  /-- A digit. -/
  | digit (c : Char)
  /-- The key that deletes to the left. -/
  | backspace
  /-- The arrow to the left. -/
  | left
  /-- The arrow to the right. -/
  | right
  /-- The key that goes to the start. -/
  | home
  /-- The key that goes to the end. -/
  | toEnd
  /-- The key that confirms. -/
  | enter
  /-- The key that cancels. -/
  | escape
  /-- Any other character. -/
  | character (c : Char)
  /-- No key. -/
  | other
deriving DecidableEq, Repr

namespace Key

/-- Whether a character is an operator or a parenthesis. -/
def isOperator (c : Char) : Bool :=
  c = '+' || c = '-' || c = '*' || c = '/' || c = '(' || c = ')' || c = '^'

/-- The key of a character. -/
def ofChar (c : Char) : Key :=
  if isOperator c then operator c
  else if c.isDigit then digit c
  else if Text.isPrintable c then character c
  else other

/-- The editing keys by name. -/
def named : List (String × Key) :=
  [("Backspace", backspace), ("ArrowLeft", left), ("ArrowRight", right), ("Home", home),
   ("End", toEnd), ("Enter", enter), ("Escape", escape)]

/-- The key with a name. -/
def ofName (name : Text) : Key :=
  match name with
  | [c] => ofChar c
  | _ =>
    match named.find? fun k => k.1.toList == name with
    | some (_, key) => key
    | none => other

@[simp] theorem ofName_singleton (c : Char) : ofName [c] = ofChar c := rfl

end Key

end TagFormula
