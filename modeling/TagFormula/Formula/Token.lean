import TagFormula.Text.Digit

/-!
# Tokens

A formula is read as numbers, operators and parentheses; spaces and tabs
between them are left out. A number is the longest run of digits with an
optional point and digits after it, or a point with digits after it, in the
digits of any script. A character that begins none of these is kept as a token
of its own (`Token.foreign`), so that the place where it stands can be reported
in its turn, after anything wrong before it.

Each token carries the offset at which it starts.
-/

namespace TagFormula

/-- A token of a formula. -/
inductive Token where
  /-- A number, as written. -/
  | number (text : Text)
  /-- `+` -/
  | plus
  /-- `-` -/
  | minus
  /-- `*` -/
  | times
  /-- `/` -/
  | slash
  /-- `^` -/
  | caret
  /-- `(` -/
  | opening
  /-- `)` -/
  | closing
  /-- A character that begins no token. -/
  | foreign (c : Char)
deriving DecidableEq, Repr

/-- A token and the offset at which it starts. -/
structure Positioned where
  /-- The offset. -/
  position : Nat
  /-- The token. -/
  token : Token
deriving DecidableEq, Repr

namespace Token

/-- The token of a character that stands alone. -/
def ofChar : Char → Token
  | '+' => plus
  | '-' => minus
  | '*' => times
  | '/' => slash
  | '^' => caret
  | '(' => opening
  | ')' => closing
  | c => foreign c

/-- A token as written. -/
def text : Token → Text
  | number t => t
  | plus => ['+']
  | minus => ['-']
  | times => ['*']
  | slash => ['/']
  | caret => ['^']
  | opening => ['(']
  | closing => [')']
  | foreign c => [c]

/-- Whether a character is left out between tokens. -/
def isSpace (c : Char) : Bool :=
  c = ' ' || c = '\t'

/-- The longest number at the start of a text; empty when there is none. -/
def numberPart (t : Text) : Text :=
  let whole := t.takeWhile Text.isDigit
  match t.dropWhile Text.isDigit with
  | '.' :: rest =>
    let fraction := rest.takeWhile Text.isDigit
    if whole.isEmpty && fraction.isEmpty then [] else whole ++ '.' :: fraction
  | _ => whole

/-- The tokens of a text whose first character is at the offset `position`. -/
def scanFrom (position : Nat) : Text → List Positioned
  | [] => []
  | c :: rest =>
    if isSpace c then scanFrom (position + 1) rest
    else
      match numberPart (c :: rest) with
      | [] => ⟨position, ofChar c⟩ :: scanFrom (position + 1) rest
      | d :: ds =>
        ⟨position, number (d :: ds)⟩ ::
          scanFrom (position + ds.length + 1) (rest.drop ds.length)
termination_by t => t.length

/-- The tokens of a text. -/
def scan (t : Text) : List Positioned :=
  scanFrom 0 t

@[simp] theorem scanFrom_nil (position : Nat) : scanFrom position [] = [] := by
  simp [scanFrom]

@[simp] theorem text_ofChar (c : Char) : (ofChar c).text = [c] := by
  unfold ofChar
  split <;> rfl

end Token

end TagFormula
