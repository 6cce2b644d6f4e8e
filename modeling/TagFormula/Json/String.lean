import TagFormula.Text.CodePoint
import TagFormula.Text.Quoted

/-!
# Strings of JSON

A string of JSON may be written by UTF-16 units, and it may hold a surrogate
without a partner. So it is a list of code points in which no pair of surrogates
is left (`JsonString.joined`): a pair is always the character that it stands for.
Every text is such a string.
-/

namespace TagFormula

/-- A string of JSON. -/
structure JsonString where
  /-- The code points. -/
  points : List CodePoint
  /-- No two neighbours are a pair. -/
  joined : CodePoint.Joined points
deriving DecidableEq

namespace JsonString

/-- The string of code points, whose pairs are joined. -/
def ofPoints (ps : List CodePoint) : JsonString :=
  ⟨CodePoint.join ps, CodePoint.joined_join ps⟩

/-- The string of a text. -/
def ofText (t : Text) : JsonString :=
  ⟨t.map .char, CodePoint.joined_map_char t⟩

instance : Coe String JsonString :=
  ⟨fun s => ofText s.toList⟩

/-- The characters of a string, with U+FFFD for every surrogate. -/
def text (s : JsonString) : Text :=
  CodePoint.text s.points

/-- How many code points a string has. -/
def length (s : JsonString) : Nat :=
  s.points.length

/-- Whether a string has no code points. -/
def isEmpty (s : JsonString) : Bool :=
  s.points.isEmpty

/-- Whether a string does not come behind another when they are put into order. -/
def atMost (s t : JsonString) : Bool :=
  CodePoint.atMost s.points t.points

/-- One code point inside quotes; a surrogate is given by its number. -/
def quotePoint (quote : Char) : CodePoint → Text
  | .char c => Text.quoteChar quote c
  | p => '\\' :: 'u' :: Text.hexDigits 4 p.toNat

/-- A string as it is shown inside a message. -/
def quoted (s : JsonString) : Text :=
  let quote := Text.enclosingQuote s.text
  quote :: s.points.flatMap (quotePoint quote) ++ [quote]

@[simp] theorem text_ofText (t : Text) : (ofText t).text = t :=
  CodePoint.text_map_char t

@[simp] theorem length_ofText (t : Text) : (ofText t).length = t.length :=
  List.length_map ..

@[simp] theorem isEmpty_ofText (t : Text) : (ofText t).isEmpty = t.isEmpty := by
  cases t <;> rfl

@[simp] theorem ofPoints_map_char (t : Text) : ofPoints (t.map .char) = ofText t := by
  simp [ofPoints, ofText, CodePoint.join_of_joined (CodePoint.joined_map_char t)]

/-- Different texts are different strings. -/
@[simp] theorem ofText_inj {t u : Text} : ofText t = ofText u ↔ t = u :=
  ⟨fun h => by simpa using congrArg text h, congrArg ofText⟩

/-- A text is quoted as a string as it is quoted as a text. -/
@[simp] theorem quoted_ofText (t : Text) : (ofText t).quoted = Text.quoted t := by
  simp only [quoted, text_ofText, Text.quoted]
  simp only [ofText, List.flatMap_map, quotePoint]

end JsonString

end TagFormula
