import TagFormula.Formula.Expr
import TagFormula.Formula.Token

/-!
# The grammar of formulas

A text is a formula when it divides into tokens that derive from the grammar. A
number token is as long as it can be, symbols stand for themselves, and spaces and
tabs are left out. The rules of the grammar are those of `Derives`: sums and products
take their left operand from their own category, so they associate to the left. A sign
stands above a power, and a power takes a bare atom on its left and a possibly signed
operand on its right, so powers associate to the right.

Nothing here depends on how texts are scanned or parsed.
-/

namespace TagFormula

/-! ## Tokens of a text -/

/-- A text of digits only, which may be empty. -/
def Digits (t : Text) : Prop :=
  ∀ c ∈ t, Text.isDigit c = true

/-- A number as written. -/
inductive Numeral : Text → Prop
  | whole {whole : Text} (hw : Digits whole) (hne : whole ≠ []) : Numeral whole
  | pointed {whole fraction : Text} (hw : Digits whole) (hne : whole ≠ [])
      (hf : Digits fraction) : Numeral (whole ++ '.' :: fraction)
  | fraction {fraction : Text} (hf : Digits fraction) (hne : fraction ≠ []) :
      Numeral ('.' :: fraction)

/-- A number, with no longer one at the start of the same text. -/
def LongestNumeral (t rest : Text) : Prop :=
  Numeral t ∧ ∀ u v, t ++ rest = u ++ v → Numeral u → u.length ≤ t.length

/-- The characters that are tokens by themselves. -/
def symbols : List (Char × Token) :=
  [('+', .plus), ('-', .minus), ('*', .times), ('/', .slash), ('^', .caret), ('(', .opening),
    (')', .closing)]

/-- A text divides into tokens. -/
inductive Lexes : Text → List Token → Prop
  | nil : Lexes [] []
  | space {c : Char} {t : Text} {ts : List Token} (hc : c = ' ' ∨ c = '\t') (h : Lexes t ts) :
      Lexes (c :: t) ts
  | symbol {c : Char} {token : Token} {t : Text} {ts : List Token}
      (hc : (c, token) ∈ symbols) (h : Lexes t ts) : Lexes (c :: t) (token :: ts)
  | number {t rest : Text} {ts : List Token} (ht : LongestNumeral t rest) (h : Lexes rest ts) :
      Lexes (t ++ rest) (.number t :: ts)

/-! ## Rules -/

/-- What a part of a formula can be, from the loosest to the closest. -/
inductive Category where
  | addition
  | multiplication
  | unary
  | exponentiation
  | atom

/-- Tokens derive from a category, with the tree of the derivation. -/
inductive Derives : Category → List Token → Expr → Prop
  | term {ts : List Token} {e : Expr} (h : Derives .multiplication ts e) : Derives .addition ts e
  | add {ls rs : List Token} {a b : Expr} (hl : Derives .addition ls a)
      (hr : Derives .multiplication rs b) :
      Derives .addition (ls ++ .plus :: rs) (.binary .add a b)
  | sub {ls rs : List Token} {a b : Expr} (hl : Derives .addition ls a)
      (hr : Derives .multiplication rs b) :
      Derives .addition (ls ++ .minus :: rs) (.binary .sub a b)
  | factor {ts : List Token} {e : Expr} (h : Derives .unary ts e) : Derives .multiplication ts e
  | mul {ls rs : List Token} {a b : Expr} (hl : Derives .multiplication ls a)
      (hr : Derives .unary rs b) :
      Derives .multiplication (ls ++ .times :: rs) (.binary .mul a b)
  | div {ls rs : List Token} {a b : Expr} (hl : Derives .multiplication ls a)
      (hr : Derives .unary rs b) :
      Derives .multiplication (ls ++ .slash :: rs) (.binary .div a b)
  | power {ts : List Token} {e : Expr} (h : Derives .exponentiation ts e) : Derives .unary ts e
  | neg {ts : List Token} {e : Expr} (h : Derives .unary ts e) :
      Derives .unary (.minus :: ts) (.signed .neg e)
  | pos {ts : List Token} {e : Expr} (h : Derives .unary ts e) :
      Derives .unary (.plus :: ts) (.signed .pos e)
  | base {ts : List Token} {e : Expr} (h : Derives .atom ts e) : Derives .exponentiation ts e
  | pow {ls rs : List Token} {a b : Expr} (hl : Derives .atom ls a) (hr : Derives .unary rs b) :
      Derives .exponentiation (ls ++ .caret :: rs) (.binary .pow a b)
  | number (literal : Text) : Derives .atom [.number literal] (.number literal)
  | group {ts : List Token} {e : Expr} (h : Derives .addition ts e) :
      Derives .atom (.opening :: (ts ++ [.closing])) e

/-- A text is a formula with this tree. -/
def HasTree (t : Text) (e : Expr) : Prop :=
  ∃ ts, Lexes t ts ∧ Derives .addition ts e

/-! ## Operators at large -/

namespace Operator

/-- The token of an operator. -/
def token : Operator → Token
  | add => .plus
  | sub => .minus
  | mul => .times
  | div => .slash
  | pow => .caret

/-- The category of the operand on the left. -/
def left : Operator → Category
  | add | sub => .addition
  | mul | div => .multiplication
  | pow => .atom

/-- The category of the operand on the right. -/
def right : Operator → Category
  | add | sub => .multiplication
  | mul | div | pow => .unary

/-- The category of the result. -/
def result : Operator → Category
  | add | sub => .addition
  | mul | div => .multiplication
  | pow => .exponentiation

end Operator

/-- The token of a sign. -/
def Sign.token : Sign → Token
  | pos => .plus
  | neg => .minus

/-- The place of a category among the others, the closest last. -/
def Category.rank : Category → Nat
  | addition => 1
  | multiplication => 2
  | unary => 3
  | exponentiation => 4
  | atom => 5

namespace Derives

theorem binary {op : Operator} {ls rs : List Token} {a b : Expr} (hl : Derives op.left ls a)
    (hr : Derives op.right rs b) : Derives op.result (ls ++ op.token :: rs) (.binary op a b) := by
  cases op with
  | add => exact .add hl hr
  | sub => exact .sub hl hr
  | mul => exact .mul hl hr
  | div => exact .div hl hr
  | pow => exact .pow hl hr

theorem signed {sign : Sign} {ts : List Token} {e : Expr} (h : Derives .unary ts e) :
    Derives .unary (sign.token :: ts) (.signed sign e) := by
  cases sign with
  | pos => exact .pos h
  | neg => exact .neg h

/-- What derives from a category also derives from every looser one. -/
theorem lift {c d : Category} {ts : List Token} {e : Expr} (h : Derives d ts e)
    (hle : c.rank ≤ d.rank) : Derives c ts e := by
  have hbase (h : Derives .atom ts e) : Derives .exponentiation ts e := .base h
  have hpower (h : Derives .exponentiation ts e) : Derives .unary ts e := .power h
  have hfactor (h : Derives .unary ts e) : Derives .multiplication ts e := .factor h
  have hterm (h : Derives .multiplication ts e) : Derives .addition ts e := .term h
  cases c <;> cases d <;> grind [Category.rank]

/-- Characters that begin no token do not occur in a derivation. -/
theorem foreign_not_mem {c : Category} {ts : List Token} {e : Expr} (h : Derives c ts e)
    (x : Char) : Token.foreign x ∉ ts := by
  induction h with
  | term h ih => exact ih
  | factor h ih => exact ih
  | power h ih => exact ih
  | base h ih => exact ih
  | number literal => simp
  | _ => simp_all

end Derives

end TagFormula
