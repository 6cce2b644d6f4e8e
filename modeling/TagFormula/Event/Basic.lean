import TagFormula.Json.Conversion
import TagFormula.Json.Strict

/-!
# Events

An event tells what happened in an editing session: its kind, how serious it is,
a message, a code if it is about an error, and a context of named values. The
context of a session's event names the session and may hold the formula and more
(`Event.ofSession`); what is added last wins.

An event has no time of its own. It gets one when it is written (`Event.toJson`).
Then numbers in its context that are not finite become null, and a context that
is nested too deeply is refused.
-/

namespace TagFormula

/-- How serious an event is. -/
inductive EventLevel where
  /-- Something happened as it should. -/
  | info
  /-- Something deserves attention. -/
  | warning
  /-- Something failed. -/
  | error
deriving DecidableEq, Repr

/-- What an event is about. -/
inductive EventKind where
  /-- A session begins. -/
  | sessionStarted
  /-- A session begins anew. -/
  | sessionReset
  /-- A tag is put in. -/
  | tagInserted
  /-- A tag is taken out. -/
  | tagRemoved
  /-- The formula has a value. -/
  | formulaEvaluated
  /-- The formula has an error. -/
  | formulaError
deriving DecidableEq, Repr

/-- Something that happened. -/
structure Event where
  /-- How serious it is. -/
  level : EventLevel
  /-- What it is about. -/
  kind : EventKind
  /-- The circumstances. -/
  context : List (JsonString × Json)
  /-- What happened, in words. -/
  message : Text
  /-- The code of the error it is about. -/
  errorCode : Option String

/-- Why an event cannot be written. -/
inductive EventFault where
  /-- Its context is nested too deeply. -/
  | tooDeep
  /-- It holds an integer with more digits than are read. -/
  | integerTooLong
deriving DecidableEq, Repr

namespace EventFault

/-- The message of a fault. -/
def message : EventFault → String
  | tooDeep => "Maximum serialization depth exceeded"
  | integerTooLong => Literal.limitWording ""

end EventFault

namespace EventLevel

/-- The word for a level. -/
def name : EventLevel → String
  | info => "info"
  | warning => "warning"
  | error => "error"

/-- The level a word stands for. -/
def ofName? (word : String) : Option EventLevel :=
  [info, warning, error].find? (·.name == word)

@[simp] theorem ofName?_name (l : EventLevel) : ofName? l.name = some l := by
  cases l <;> rfl

end EventLevel

namespace EventKind

/-- The word for a kind. -/
def name : EventKind → String
  | sessionStarted => "session_started"
  | sessionReset => "session_reset"
  | tagInserted => "tag_inserted"
  | tagRemoved => "tag_removed"
  | formulaEvaluated => "formula_evaluated"
  | formulaError => "formula_error"

/-- The kind a word stands for. -/
def ofName? (word : String) : Option EventKind :=
  [sessionStarted, sessionReset, tagInserted, tagRemoved, formulaEvaluated, formulaError].find?
    (·.name == word)

@[simp] theorem ofName?_name (k : EventKind) : ofName? k.name = some k := by
  cases k <;> rfl

end EventKind

namespace Event

/-- The version of the form in which events are written. -/
def schemaVersion : Int := 1

/-- The context of a session's event: the session, the formula if it is given,
and what is added. -/
def sessionContext (session : Text) (formula : Option Text) (extra : List (JsonString × Json)) :
    List (JsonString × Json) :=
  let base : List (JsonString × Json) := ("session_id", .ofText session) ::
    (match formula with
      | some t => [("formula", .ofText t)]
      | none => [])
  Json.putAll base extra

/-- An event of a session. -/
def ofSession (kind : EventKind) (level : EventLevel) (message session : Text)
    (formula : Option Text) (errorCode : Option String) (extra : List (JsonString × Json)) : Event :=
  { level, kind, context := sessionContext session formula extra, message, errorCode }

/-- How many lists and objects may stand in each other in a context. -/
def maxDepth : Nat := 254

/-- An event as it is written at a time, for a context that can be written. -/
def record (e : Event) (time : String) : Json :=
  .object [("schema_version", .integer schemaVersion), ("ts", .string time),
    ("level", .string e.level.name), ("event_type", .string e.kind.name),
    ("context", .object (Json.strictMembers e.context)), ("message", .ofText e.message),
    ("error_code", match e.errorCode with
      | some code => .string code
      | none => .null)]

/-- An event as it is written at a time. -/
def toJson (e : Event) (time : String) : Except EventFault Json :=
  if maxDepth < Json.membersDepth e.context then .error .tooDeep else .ok (e.record time)

end Event

end TagFormula
