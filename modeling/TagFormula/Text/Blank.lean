import TagFormula.Text.Basic

/-!
# Blank characters

A blank is a character of the Unicode white space property or one of the four
information separators U+001C to U+001F. A text is blank when all of its
characters are, and the empty text is blank.
-/

namespace TagFormula.Text

/-- The blank characters, as intervals of code points. -/
def blankRanges : List (Nat × Nat) :=
  [(0x09, 0x0D), (0x1C, 0x20), (0x85, 0x85), (0xA0, 0xA0), (0x1680, 0x1680), (0x2000, 0x200A),
   (0x2028, 0x2029), (0x202F, 0x202F), (0x205F, 0x205F), (0x3000, 0x3000)]

/-- Whether a character is blank. -/
def isBlankChar (c : Char) : Bool :=
  inRanges blankRanges c

/-- Whether a text holds nothing but blanks. -/
def isBlank (t : Text) : Bool :=
  t.all isBlankChar

/-- A text without its trailing blanks. -/
def stripEnd (t : Text) : Text :=
  (t.reverse.dropWhile isBlankChar).reverse

/-- A text without its leading and trailing blanks. -/
def strip (t : Text) : Text :=
  stripEnd (t.dropWhile isBlankChar)

@[simp] theorem isBlank_nil : isBlank [] = true := rfl

theorem isBlank_cons (c : Char) (t : Text) :
    isBlank (c :: t) = (isBlankChar c && isBlank t) := rfl

theorem isBlank_append (s t : Text) : isBlank (s ++ t) = (isBlank s && isBlank t) := by
  simp [isBlank]

/-- Trailing blanks do not matter to `stripEnd`. -/
theorem stripEnd_append_blank {t w : Text} (h : isBlank w = true) :
    stripEnd (t ++ w) = stripEnd t := by
  have hw : ∀ c ∈ w.reverse, isBlankChar c = true := by
    simpa [isBlank] using h
  rw [stripEnd, stripEnd, List.reverse_append, List.dropWhile_append_of_pos hw]

end TagFormula.Text
