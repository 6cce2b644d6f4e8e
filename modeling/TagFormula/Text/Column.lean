import TagFormula.Text.Basic

/-!
# Columns

A text is set in a column by spaces on its left or on its right. A text that is
wider than the column stays as it is.
-/

namespace TagFormula.Text

/-- The spaces that a text of a length lacks to fill a column. -/
def padding (width length : Nat) : Text :=
  List.replicate (width - length) ' '

/-- A text with spaces in front up to a width. -/
def padLeft (width : Nat) (t : Text) : Text :=
  padding width t.length ++ t

/-- A text with spaces behind up to a width. -/
def padRight (width : Nat) (t : Text) : Text :=
  t ++ padding width t.length

/-- A text as a line of its own. -/
def asLine (t : Text) : Text :=
  t ++ ['\n']

@[simp] theorem length_padLeft (width : Nat) (t : Text) :
    (padLeft width t).length = max width t.length := by
  simp only [padLeft, padding, List.length_append, List.length_replicate]
  omega

@[simp] theorem length_padRight (width : Nat) (t : Text) :
    (padRight width t).length = max width t.length := by
  simp only [padRight, padding, List.length_append, List.length_replicate]
  omega

end TagFormula.Text
