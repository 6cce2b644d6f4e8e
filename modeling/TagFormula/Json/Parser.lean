import TagFormula.Json.Basic
import TagFormula.Number.Literal

/-!
# Reading JSON

JSON is read with three additions: the words `NaN`, `Infinity` and `-Infinity`
are numbers; of members with the same key the last one counts, in the place of
the first; and a surrogate may be escaped that has no partner. White space is
the space, the tab, the line feed and the carriage return.

Besides a text that is not JSON there are two more reasons to refuse a text: an
integer with more digits than are read, and lists and objects nested deeper
than there is room for. Each is reported when it is met, whatever follows it.

The parser hands on the rest of the text. It recurses on a number of steps,
which the wrapper `parse` sets so high that it never runs out: every second
step reads a character.
-/

namespace TagFormula.Json

/-- Why a text is refused. -/
inductive ParseError where
  /-- The text is not JSON. -/
  | malformed
  /-- An integer has more digits than are read. -/
  | integerTooLong (digits : Nat)
  /-- Lists or objects are nested too deeply; `list` tells which. -/
  | tooDeep (list : Bool)
deriving DecidableEq, Repr

/-- Whether a character is white space. -/
def isSpace (c : Char) : Bool :=
  c = ' ' || c = '\t' || c = '\n' || c = '\r'

/-- A text without the white space at its start. -/
def skip (t : Text) : Text :=
  t.dropWhile isSpace

/-- The value of a hexadecimal digit. -/
def hexValue? (c : Char) : Option Nat :=
  if '0' ≤ c && c ≤ '9' then some (c.toNat - 48)
  else if 'a' ≤ c && c ≤ 'f' then some (c.toNat - 87)
  else if 'A' ≤ c && c ≤ 'F' then some (c.toNat - 55)
  else none

/-- The UTF-16 unit of four hexadecimal digits. -/
def unit? (a b c d : Char) : Option Nat :=
  match hexValue? a, hexValue? b, hexValue? c, hexValue? d with
  | some a, some b, some c, some d => some (((a * 16 + b) * 16 + c) * 16 + d)
  | _, _, _, _ => none

/-- The character of a short escape. -/
def shortEscape? : Char → Option Char
  | '"' => some '"'
  | '\\' => some '\\'
  | '/' => some '/'
  | 'b' => some '\x08'
  | 'f' => some '\x0C'
  | 'n' => some '\n'
  | 'r' => some '\r'
  | 't' => some '\t'
  | _ => none

/-- Reads a string after its opening quote. The code points read so far are
`seen`, in reverse; those of escapes may be surrogates. -/
def stringPoints (seen : List CodePoint) : Text → Except ParseError (List CodePoint × Text)
  | [] => .error .malformed
  | '"' :: rest => .ok (seen.reverse, rest)
  | '\\' :: 'u' :: a :: b :: c :: d :: rest =>
    match unit? a b c d with
    | some u => stringPoints (.ofNat u :: seen) rest
    | none => .error .malformed
  | '\\' :: e :: rest =>
    match shortEscape? e with
    | some c => stringPoints (.char c :: seen) rest
    | none => .error .malformed
  | c :: rest =>
    if c = '\\' || c.toNat < 0x20 then .error .malformed
    else stringPoints (.char c :: seen) rest

/-- Reads a string after its opening quote. -/
def string? (t : Text) : Except ParseError (JsonString × Text) :=
  match stringPoints [] t with
  | .ok (points, rest) => .ok (.ofPoints points, rest)
  | .error e => .error e

/-- A run of ASCII digits and what follows it. -/
def digits (t : Text) : Text × Text :=
  (t.takeWhile Char.isDigit, t.dropWhile Char.isDigit)

/-- The digits of a fraction, if a point and a digit come next. -/
def fraction (t : Text) : Text × Text :=
  match t with
  | '.' :: rest => if (digits rest).1.isEmpty then ([], t) else digits rest
  | _ => ([], t)

/-- The exponent, if there is one with a digit. -/
def exponent (t : Text) : Option Int × Text :=
  match t with
  | c :: rest =>
    if c = 'e' || c = 'E' then
      let (negative, size) := Literal.sign rest
      match digits size with
      | ([], _) => (none, t)
      | (ds, rest) =>
        (some (if negative then -(Text.ofDigits ds : Int) else Text.ofDigits ds), rest)
    else (none, t)
  | [] => (none, t)

/-- The digits of an integer part: a zero alone, or digits that begin with
another one. -/
def wholePart (t : Text) : Text × Text :=
  match t with
  | '0' :: rest => (['0'], rest)
  | _ => digits t

/-- Reads an unsigned number; `negative` tells the sign before it. -/
def number (negative : Bool) (t : Text) : Except ParseError (Json × Text) :=
  let (whole, rest) := wholePart t
  if whole.isEmpty then .error .malformed
  else
    let (places, rest) := fraction rest
    match places, exponent rest with
    | [], (none, rest) =>
      if Literal.maxIntegerDigits < whole.length then .error (.integerTooLong whole.length)
      else
        let n : Int := Text.ofDigits whole
        .ok (.integer (if negative then -n else n), rest)
    | _, (e, rest) =>
      let d : Decimal := ⟨Text.ofDigits (whole ++ places), e.getD 0 - places.length⟩
      .ok (.double (Binary64.ofMagnitude negative d.magnitude), rest)

/-- The words that stand for values. -/
def words : List (Text × Json) :=
  [("null".toList, .null), ("true".toList, .bool true), ("false".toList, .bool false),
   ("NaN".toList, .double (Float.ofBits 0x7FF8000000000000)),
   ("Infinity".toList, .double (Binary64.ofMagnitude false Binary64.infinity)),
   ("-Infinity".toList, .double (Binary64.ofMagnitude true Binary64.infinity))]

/-- Reads a value without parts. -/
def scalar (t : Text) : Except ParseError (Json × Text) :=
  match words.find? fun w => w.1.isPrefixOf t with
  | some (word, j) => .ok (j, t.drop word.length)
  | none =>
    match t with
    | '-' :: rest => number true rest
    | _ => number false t

mutual

/-- Reads a value in at most `steps` steps, with lists and objects nested up to
`depth`. -/
def value (steps depth : Nat) (t : Text) : Except ParseError (Json × Text) :=
  match steps with
  | 0 => .error .malformed
  | steps + 1 =>
    match t with
    | '"' :: rest =>
      match string? rest with
      | .ok (s, rest) => .ok (.string s, rest)
      | .error e => .error e
    | '[' :: rest =>
      if depth = 0 then .error (.tooDeep true)
      else
        match skip rest with
        | ']' :: rest => .ok (.array [], rest)
        | rest => items steps (depth - 1) [] rest
    | '\x7b' :: rest =>
      if depth = 0 then .error (.tooDeep false)
      else
        match skip rest with
        | '\x7d' :: rest => .ok (.object [], rest)
        | rest => members steps (depth - 1) [] rest
    | _ => scalar t

/-- Reads the items of a list up to its closing bracket; those read so far are
`seen`, in reverse. -/
def items (steps depth : Nat) (seen : List Json) (t : Text) : Except ParseError (Json × Text) :=
  match steps with
  | 0 => .error .malformed
  | steps + 1 =>
    match value steps depth t with
    | .error e => .error e
    | .ok (j, rest) =>
      match skip rest with
      | ']' :: rest => .ok (.array (j :: seen).reverse, rest)
      | ',' :: rest => items steps depth (j :: seen) (skip rest)
      | _ => .error .malformed

/-- Reads the members of an object up to its closing brace; those read so far are
`seen`. -/
def members (steps depth : Nat) (seen : List (JsonString × Json)) (t : Text) :
    Except ParseError (Json × Text) :=
  match steps with
  | 0 => .error .malformed
  | steps + 1 =>
    match t with
    | '"' :: rest =>
      match string? rest with
      | .error e => .error e
      | .ok (key, rest) =>
        match skip rest with
        | ':' :: rest =>
          match value steps depth (skip rest) with
          | .error e => .error e
          | .ok (j, rest) =>
            match skip rest with
            | '\x7d' :: rest => .ok (.object (put seen key j), rest)
            | ',' :: rest => members steps depth (put seen key j) (skip rest)
            | _ => .error .malformed
        | _ => .error .malformed
    | _ => .error .malformed

end

/-- Reads a text that holds one value and nothing else, with room for `nesting` lists and
objects in each other. -/
def parse (nesting : Nat) (t : Text) : Except ParseError Json :=
  match value (2 * t.length + 2) nesting (skip t) with
  | .error e => .error e
  | .ok (j, rest) => if (skip rest).isEmpty then .ok j else .error .malformed

end TagFormula.Json
