import TagFormula.Text.Basic

/-!
# Lines

A text is split into lines at every line boundary of Unicode and at the file,
group and record separators U+001C to U+001E. A carriage return followed by a
line feed is one boundary. A boundary ends a line, so the last line of a text
that ends with one is the line before it, and the empty text has no lines.
-/

namespace TagFormula.Text

/-- The characters that end a line. -/
def lineEndRanges : List (Nat × Nat) :=
  [(0x0A, 0x0D), (0x1C, 0x1E), (0x85, 0x85), (0x2028, 0x2029)]

/-- Whether a character ends a line. -/
def endsLine (c : Char) : Bool :=
  inRanges lineEndRanges c

/-- The lines of a text that follows the unfinished line `line`, which is held in
reverse. -/
def linesAfter (line : Text) : Text → List Text
  | [] => if line.isEmpty then [] else [line.reverse]
  | '\r' :: '\n' :: rest => line.reverse :: linesAfter [] rest
  | c :: rest =>
    if endsLine c then line.reverse :: linesAfter [] rest else linesAfter (c :: line) rest

/-- The lines of a text, without the characters that end them. -/
def lines (t : Text) : List Text :=
  linesAfter [] t

@[simp] theorem lines_nil : lines [] = [] := rfl

end TagFormula.Text
