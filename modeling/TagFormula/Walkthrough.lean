import TagFormula.Catalog
import TagFormula.Json.Printer
import TagFormula.Session.Editing
import TagFormula.Text.Column

/-!
# A session from beginning to end

A script is a list of steps, each of which types keys, picks a variable or presses
a key with a name. Replaying it in a session gives a snapshot after every step: the
formula, the cursor, the tags and the outcome after it. The snapshots are printed
line by line and summed up in a document.

The script here builds a formula from variables of the built-in catalog, runs
into a division by zero, deletes its way out, and removes a tag as a whole.
-/

namespace TagFormula

/-- A step of a script. -/
inductive ScriptStep where
  /-- Types the keys of a text. -/
  | keys (t : Text)
  /-- Looks up a term and takes the first suggestion. -/
  | pick (term : Text)
  /-- Presses a key given by its name. -/
  | press (name : Text)

/-- A session as it is after a step. -/
structure Snapshot where
  /-- The step. -/
  step : ScriptStep
  /-- The session after it. -/
  session : Session

namespace ScriptStep

/-- A step in words. -/
def describe : ScriptStep → Text
  | keys t => "keys ".toList ++ t
  | pick term => "pick ".toList ++ term
  | press name => "press ".toList ++ name

/-- A session after a step. -/
def after (s : Session) : ScriptStep → Session
  | keys t => (s.apply (Session.typeKeys t)).2
  | pick term => (s.apply (Session.pick term)).2
  | press name => (s.apply (Session.press (.ofName name))).2

/-- The snapshots of a script replayed in a session. -/
def replay (s : Session) : List ScriptStep → List Snapshot
  | [] => []
  | step :: rest => ⟨step, after s step⟩ :: replay (after s step) rest

@[simp] theorem length_replay (s : Session) (steps : List ScriptStep) :
    (replay s steps).length = steps.length := by
  induction steps generalizing s with
  | nil => rfl
  | cons step rest ih => simp [replay, ih]

end ScriptStep

namespace Snapshot

/-- The line printed for a snapshot. -/
def line (s : Snapshot) : Text :=
  Text.asLine (Text.padRight 40 s.session.buffer.text ++ " -> ".toList ++
    s.session.result.display)

/-- A snapshot as JSON. -/
def toJson (s : Snapshot) : Json :=
  .object [("action", .ofText s.step.describe), ("formula", .ofText s.session.buffer.text),
    ("cursor", .integer s.session.buffer.cursor),
    ("tags", .array (s.session.buffer.sortedTags.map fun t => .ofText t.name)),
    ("display", .ofText s.session.result.display)]

end Snapshot

namespace Walkthrough

/-- The script. -/
def script : List ScriptStep :=
  [.keys "(".toList, .pick "Revenue".toList, .keys "-".toList, .pick "Expenses".toList,
   .keys ")*(1-".toList, .pick "TaxRate".toList, .keys ")".toList, .keys "/0".toList,
   .press "Backspace".toList, .press "Backspace".toList, .keys "/".toList,
   .pick "Employees".toList, .press "Backspace".toList, .keys "4".toList]

/-- The session in which the script is replayed. -/
def beginning : Session :=
  .start Catalog.builtIn.search "demo".toList Session.defaultLimit

/-- The snapshots of the script. -/
def snapshots : List Snapshot :=
  ScriptStep.replay beginning script

/-- The session at the end. -/
def ending : Session :=
  (snapshots.getLast?.map (·.session)).getD beginning

/-- What is printed. -/
def printed : Text :=
  snapshots.flatMap (·.line)

/-- The document that sums up the session. -/
def summary : Json :=
  .object [("demo", .string "formula_session"),
    ("final_formula", .ofText ending.buffer.text),
    ("final_value", match ending.result.number? with
      | some n => .ofNumber n
      | none => .null),
    ("steps", .array (snapshots.map (·.toJson)))]

/-- The text of that document. -/
def summaryText : Text :=
  Text.asLine summary.sorted.indented

end Walkthrough

end TagFormula
