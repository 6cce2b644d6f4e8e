import TagFormula.Text.Printable

/-!
# Quoted texts

How a text is shown inside a message. It stands between single quotes, or
between double quotes when it holds a single quote and no double one. The
enclosing quote and the backslash are escaped by a backslash, the line feed,
the carriage return and the tab have escapes of their own, and every other
character that is not printable is given by its code point in two, four or
eight hexadecimal digits.
-/

namespace TagFormula.Text

/-- The low hexadecimal digits of a number, exactly `width` of them. -/
def hexDigits (width n : Nat) : Text :=
  match width with
  | 0 => []
  | w + 1 => hexDigits w (n / 16) ++ [Nat.digitChar (n % 16)]

@[simp] theorem length_hexDigits (width n : Nat) : (hexDigits width n).length = width := by
  induction width generalizing n with
  | zero => rfl
  | succ w ih => simp [hexDigits, ih]

/-- The quote that encloses a text. -/
def enclosingQuote (t : Text) : Char :=
  if t.contains '\'' && !t.contains '"' then '"' else '\''

/-- One character inside quotes. -/
def quoteChar (quote c : Char) : Text :=
  if c = quote || c = '\\' then ['\\', c]
  else if c = '\n' then ['\\', 'n']
  else if c = '\r' then ['\\', 'r']
  else if c = '\t' then ['\\', 't']
  else if isPrintable c then [c]
  else if c.toNat < 0x100 then '\\' :: 'x' :: hexDigits 2 c.toNat
  else if c.toNat < 0x10000 then '\\' :: 'u' :: hexDigits 4 c.toNat
  else '\\' :: 'U' :: hexDigits 8 c.toNat

/-- A text as it is shown inside a message. -/
def quoted (t : Text) : Text :=
  enclosingQuote t :: t.flatMap (quoteChar (enclosingQuote t)) ++ [enclosingQuote t]

end TagFormula.Text
