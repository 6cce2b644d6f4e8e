import TagFormula.Buffer.Rendering
import TagFormula.Buffer.Tagging
import TagFormula.Project.Config
import TagFormula.Text.Column
import TagFormula.Text.Plain

/-!
# Commands

A command is run on the files of a project and gives a report: what is printed,
what is complained about, and the exit code. Mistakes of the user are reported
with exit code one; anything else that goes wrong ends the command with a
`CommandError`.

A formula is evaluated or rendered with variables given as `NAME=VALUE`, or as
`NAME` alone, which is then looked up in the catalog of the project. The catalog
is not read unless a variable asks for it.

Everything is printed as lines of plain text. A line with a surrogate cannot be
printed.
-/

namespace TagFormula

/-- What can be asked for. -/
inductive Command where
  /-- The version of the program. -/
  | version
  /-- The value of a formula. -/
  | eval (formula : Text) (given : List Text) (json : Bool)
  /-- The segments of a formula. -/
  | render (formula : Text) (given : List Text)
  /-- The variables whose name contains a term. -/
  | suggest (term : Text) (json : Bool)
  /-- The events of the log that are wanted, up to a limit. -/
  | logs (wanted : EventFilter) (limit : Int) (json : Bool)

/-- What a command leaves behind. -/
structure Report where
  /-- The exit code. -/
  exitCode : Nat
  /-- What is printed. -/
  out : Text
  /-- What is complained about. -/
  err : Text
deriving DecidableEq, Repr

/-- Why a command ends without a report. -/
inductive CommandError where
  /-- The project cannot be used. -/
  | project (error : ProjectError)
  /-- The formula cannot be tagged. -/
  | tagging (error : TaggingError)
  /-- The log cannot be read. -/
  | log (error : ReadError)
  /-- A value of this kind cannot be padded. -/
  | notPaddable (kind : String)
  /-- A line cannot be printed, for it holds a run of surrogates: the first of
  them, its place and how many there are. -/
  | surrogates (first : CodePoint) (place count : Nat)

namespace Report

/-- A report of success. -/
def printed (out : Text) : Report :=
  ⟨0, out, []⟩

/-- A complaint about a mistake. -/
def complaint (message : Text) : Report :=
  ⟨1, [], Text.plainLine ("Error: ".toList ++ message)⟩

end Report

namespace Command

/-! ## Variables -/

/-- A step that either goes on, or ends the command with a report or an error. -/
abbrev Stage := ExceptT Report (Except CommandError)

/-- Ends the command with a complaint. -/
def complain {α : Type} (message : Text) : Stage α :=
  throw (.complaint message)

/-- Goes on unless the project cannot be used. -/
def usable {α : Type} (x : Except ProjectError α) : Stage α :=
  match x with
  | .ok a => pure a
  | .error e => ExceptT.lift (.error (.project e))

/-- Splits a text at its first equals sign. -/
def splitAssignment (t : Text) : Option (Text × Text) :=
  if t.contains '=' then some (t.takeWhile (· ≠ '='), (t.dropWhile (· ≠ '=')).drop 1) else none

/-- The variable that a name and the text of a value give. -/
def assigned (name value : Text) : Stage Variable :=
  match (Literal.double? value).filter Binary64.isFinite with
  | some x => return ⟨name, x⟩
  | none =>
    complain ("Invalid value for ".toList ++ Text.quoted name ++ ": ".toList ++ Text.quoted value)

/-- The variable of the catalog with a name. -/
def lookedUp (fs : Files) (name : Text) : Stage Variable := do
  match (← usable (Catalog.load fs)).named? name with
  | some s => return ⟨s.name, s.value⟩
  | none =>
    complain ("Unknown variable ".toList ++ Text.quoted name ++ ". Use NAME=VALUE.".toList)

/-- The variable that an argument gives. -/
def variableOf (fs : Files) (t : Text) : Stage Variable :=
  match splitAssignment t with
  | some (name, value) => assigned name value
  | none => lookedUp fs t

/-- The buffer of a formula with variables. -/
def buffer (fs : Files) (formula : Text) (given : List Text) : Stage Buffer := do
  let known ← given.mapM (variableOf fs)
  match Buffer.ofFormula formula (Variable.filed known) with
  | .ok b => return b
  | .error e => ExceptT.lift (.error (.tagging e))

/-! ## Printing -/

/-- The outcome of a formula as JSON. -/
def evaluationJson (e : Evaluation) : Json :=
  let text (t : Option Text) : Json := match t with
    | some t => .ofText t
    | none => .null
  .object [("value", match e.number? with
      | some n => .ofNumber n
      | none => .null),
    ("error_code", text (e.error?.map fun x => x.code.toList)),
    ("message", text (e.error?.map fun x => x.message.toList)),
    ("expression", text e.expression?)]

/-- A variable as JSON. -/
def suggestionJson (s : Suggestion) : Json :=
  .object [("id", .integer s.id), ("name", .ofText s.name), ("value", .double s.value)]

/-- The line for a segment. -/
def segmentLine : Segment → Text
  | .text start t => Text.padLeft 4 (intText start) ++ "  text  ".toList ++ Text.quoted t
  | .tag t =>
    Text.padLeft 4 (intText t.position) ++ "  tag   ".toList ++ t.name ++ " = ".toList ++
      briefText t.value

/-- The line for a variable. -/
def suggestionLine (s : Suggestion) : Text :=
  Text.padLeft 4 (intText s.id) ++ "  ".toList ++ Text.padRight 28 s.name ++ ' ' :: briefText s.value

/-- A piece of a line. -/
def piece (s : String) : List CodePoint :=
  s.toList.map .char

/-- The member of an event as it is shown, empty if it is missing. -/
def shownMember (members : List (JsonString × Json)) (key : JsonString) : List CodePoint :=
  match Json.lookup? members key with
  | some j => j.shown
  | none => []

/-- A value as it stands in a column of a width; truth values stand as numbers. -/
def inColumn (width : Nat) (j : Json) : Except CommandError (List CodePoint) := do
  let shown ← match j with
    | .string s => .ok s.points
    | .bool b => .ok [.char (if b then '1' else '0')]
    | .integer n => .ok ((intText n).map .char)
    | .double x => .ok ((doubleText x).map .char)
    | j => .error (.notPaddable j.kind)
  return shown ++ (Text.padding width shown.length).map .char

/-- The line for an event. -/
def eventLine : Json → Except CommandError (List CodePoint)
  | .object members => do
    let code := match Json.lookup? members "error_code" with
      | some j => if j.isTrue then piece " [" ++ j.shown ++ piece "]" else []
      | none => []
    let level ← inColumn 7 ((Json.lookup? members "level").getD (.string ""))
    return shownMember members "ts" ++ piece "  " ++ level ++ piece " " ++
      shownMember members "event_type" ++ code ++ piece "  " ++ shownMember members "message"
  | j => .error (.log (.notObject j.kind))

/-- A line as it is printed, unless it holds surrogates. -/
def printLine (line : List CodePoint) : Except CommandError Text :=
  let line := Text.withoutSequences line
  match line.dropWhile fun p => !p.isSurrogate with
  | [] => .ok (Text.withLineFeeds (Text.asLine (CodePoint.text line)))
  | first :: rest =>
    .error (.surrogates first (line.takeWhile fun p => !p.isSurrogate).length
      (1 + (rest.takeWhile CodePoint.isSurrogate).length))

end Command

end TagFormula
