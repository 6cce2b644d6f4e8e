import TagFormula.Json.Basic

/-!
# Writing JSON

JSON is written in ASCII: a character outside it, and every control character,
is given by its UTF-16 units in four hexadecimal digits each, those that have
one by their short escape. Doubles are written by their shortest text, and the
ones that are not finite by the words `NaN`, `Infinity` and `-Infinity`.

There are two layouts: `compact` on one line, and `indented` with one item on a
line and two spaces for every level. Members are written in their order;
`sorted` puts them into the order of their keys first.
-/

namespace TagFormula.Json

/-- A UTF-16 unit as an escape. -/
def unitEscape (unit : Nat) : Text :=
  '\\' :: 'u' :: Text.hexDigits 4 unit

/-- One character of a string. -/
def escapeChar (c : Char) : Text :=
  if c = '"' then ['\\', '"']
  else if c = '\\' then ['\\', '\\']
  else if c = '\n' then ['\\', 'n']
  else if c = '\r' then ['\\', 'r']
  else if c = '\t' then ['\\', 't']
  else if c = '\x0C' then ['\\', 'f']
  else if c = '\x08' then ['\\', 'b']
  else if 0x20 ≤ c.toNat && c.toNat ≤ 0x7E then [c]
  else if c.toNat < 0x10000 then unitEscape c.toNat
  else
    let n := c.toNat - 0x10000
    unitEscape (0xD800 + n / 0x400) ++ unitEscape (0xDC00 + n % 0x400)

/-- One code point of a string. -/
def escapePoint : CodePoint → Text
  | .char c => escapeChar c
  | p => unitEscape p.toNat

/-- A string between double quotes. -/
def stringText (s : JsonString) : Text :=
  '"' :: s.points.flatMap escapePoint ++ ['"']

/-- A number that is no integer. -/
def numberText (x : Float) : Text :=
  if Binary64.isFinite x then doubleText x
  else if Binary64.isNaN x then "NaN".toList
  else if Binary64.isNegative x then "-Infinity".toList
  else "Infinity".toList

/-- A value without parts. -/
def scalarText : Json → Text
  | bool true => "true".toList
  | bool false => "false".toList
  | integer n => intText n
  | double x => numberText x
  | string s => stringText s
  | _ => "null".toList

mutual

/-- A value on one line. -/
def compact : Json → Text
  | array items => '[' :: compactItems items ++ [']']
  | object members => '\x7b' :: compactMembers members ++ ['\x7d']
  | j => scalarText j

/-- Items on one line. -/
def compactItems : List Json → Text
  | [] => []
  | [j] => compact j
  | j :: rest => compact j ++ ',' :: ' ' :: compactItems rest

/-- Members on one line. -/
def compactMembers : List (JsonString × Json) → Text
  | [] => []
  | [(key, j)] => stringText key ++ ':' :: ' ' :: compact j
  | (key, j) :: rest =>
    stringText key ++ ':' :: ' ' :: compact j ++ ',' :: ' ' :: compactMembers rest

end

/-- A line break and the indentation of a level. -/
def newline (level : Nat) : Text :=
  '\n' :: List.replicate (2 * level) ' '

mutual

/-- A value at a level of indentation. -/
def indentedAt (level : Nat) : Json → Text
  | array [] => "[]".toList
  | array items => '[' :: indentedItems (level + 1) items ++ newline level ++ [']']
  | object [] => ['\x7b', '\x7d']
  | object members =>
    '\x7b' :: indentedMembers (level + 1) members ++ newline level ++ ['\x7d']
  | j => scalarText j

/-- Items on lines of their own. -/
def indentedItems (level : Nat) : List Json → Text
  | [] => []
  | [j] => newline level ++ indentedAt level j
  | j :: rest => newline level ++ indentedAt level j ++ ',' :: indentedItems level rest

/-- Members on lines of their own. -/
def indentedMembers (level : Nat) : List (JsonString × Json) → Text
  | [] => []
  | [(key, j)] => newline level ++ stringText key ++ ':' :: ' ' :: indentedAt level j
  | (key, j) :: rest =>
    newline level ++ stringText key ++ ':' :: ' ' :: indentedAt level j ++
      ',' :: indentedMembers level rest

end

/-- A value over several lines. -/
def indented (j : Json) : Text :=
  indentedAt 0 j

/-- Members in the order of their keys. -/
def sortMembers (members : List (JsonString × Json)) : List (JsonString × Json) :=
  members.mergeSort fun a b => a.1.atMost b.1

mutual

/-- A value with the members of all its objects in the order of their keys. -/
def sorted : Json → Json
  | array items => array (sortedItems items)
  | object members => object (sortMembers (sortedMembers members))
  | j => j

/-- Items with sorted members. -/
def sortedItems : List Json → List Json
  | [] => []
  | j :: rest => sorted j :: sortedItems rest

/-- Members with sorted values. -/
def sortedMembers : List (JsonString × Json) → List (JsonString × Json)
  | [] => []
  | (key, j) :: rest => (key, sorted j) :: sortedMembers rest

end

end TagFormula.Json
