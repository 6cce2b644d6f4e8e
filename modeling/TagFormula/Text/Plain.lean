import TagFormula.Text.CodePoint
import TagFormula.Text.Column

/-!
# Plain text

What is printed is plain text. A control sequence for a terminal is left out: it
is an escape character and an opening bracket, then any number of parameters,
then any number of intermediates, then a final character. Each of the three has an
interval of ASCII to itself. Lines end with a line feed alone, so a carriage
return in front of one is left out too.
-/

namespace TagFormula.Text

/-- Whether a code point is a parameter of a control sequence: a digit, a colon, a
semicolon, or one of the four characters behind it. -/
def isParameter (p : CodePoint) : Bool :=
  0x30 ≤ p.toNat && p.toNat ≤ 0x3F

/-- Whether a code point is an intermediate of a control sequence: a space or one
of the marks between it and the digits. -/
def isIntermediate (p : CodePoint) : Bool :=
  0x20 ≤ p.toNat && p.toNat ≤ 0x2F

/-- Whether a code point can end a control sequence: a letter or one of the marks
around the letters. -/
def isFinal (p : CodePoint) : Bool :=
  0x40 ≤ p.toNat && p.toNat ≤ 0x7E

/-- How many code points behind the first one belong to the control sequence that
begins with it, if one does. -/
def sequenceTail? : List CodePoint → Option Nat
  | .char '\x1B' :: .char '[' :: rest =>
    let parameters := rest.takeWhile isParameter
    let rest := rest.dropWhile isParameter
    let intermediates := rest.takeWhile isIntermediate
    if (rest.dropWhile isIntermediate).head?.any isFinal then
      some (2 + parameters.length + intermediates.length)
    else none
  | _ => none

/-- Code points without control sequences, those in front left out that belong to
the sequence before them. -/
def withoutSequencesFrom (before : Nat) : List CodePoint → List CodePoint
  | [] => []
  | p :: rest =>
    match before with
    | n + 1 => withoutSequencesFrom n rest
    | 0 =>
      match sequenceTail? (p :: rest) with
      | some n => withoutSequencesFrom n rest
      | none => p :: withoutSequencesFrom 0 rest

/-- Code points without control sequences. -/
def withoutSequences (ps : List CodePoint) : List CodePoint :=
  withoutSequencesFrom 0 ps

/-- A text without carriage returns in front of line feeds. -/
def withLineFeeds : Text → Text
  | [] => []
  | '\r' :: '\n' :: rest => '\n' :: withLineFeeds rest
  | c :: rest => c :: withLineFeeds rest

/-- A text as a line of plain text. -/
def plainLine (t : Text) : Text :=
  withLineFeeds (asLine (CodePoint.text (withoutSequences (t.map .char))))

/-- What is left out. -/
example : plainLine "\x1B[1;31mred\x1B[0m\r".toList = "red\n".toList ∧
    plainLine "\x1B[1@a\x1B[>4 qb\x1B[38:5:9~".toList = "ab\n".toList ∧
    plainLine "\x1B[31".toList = "\x1B[31\n".toList ∧
    plainLine "\x1B[ 1m\x1B[\x7F".toList = "\x1B[ 1m\x1B[\x7F\n".toList ∧
    plainLine "\x1B\x1B[m[m\x1B[;é".toList = "\x1B[m\x1B[;é\n".toList ∧
    plainLine "a\r\r\nb\rc".toList = "a\r\nb\rc\n".toList := by
  decide +kernel

end TagFormula.Text
