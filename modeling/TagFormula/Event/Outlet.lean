import TagFormula.Event.Emission

/-!
# Where a session sends its events

The events of a session go through surroundings: an emitter with its sink, the files
that a log is kept in, and the clock. Nobody keeps them as they are. Before each single
event an outlet may find them replaced by others (`Outlet.turn`), so that the log can be
taken away, repaired, or made to fail for one event and not for the next, also in the
middle of an action.
-/

namespace TagFormula

/-- What the events of a session go through. -/
structure Surroundings where
  /-- Sends the events to where they go. -/
  emitter : Emitter
  /-- The files of the project. -/
  files : Files
  /-- How many seconds the run has lasted. -/
  now : Nat
  /-- The time as it is written. -/
  time : String

/-- The surroundings after an event of a session has been emitted. -/
def Surroundings.emit (w : Surroundings) (id : Text) (e : Event) : Surroundings :=
  match w.emitter.emit w.now e w.time (some id) w.files with
  | (_, emitter, files) => { w with emitter, files }

/-- Where a session sends its events. -/
structure Outlet where
  /-- What the events go through. -/
  surroundings : Surroundings
  /-- What becomes of the surroundings before the event with a number. -/
  turn : Nat → Surroundings → Surroundings
  /-- How many events have been sent. -/
  sent : Nat

namespace Outlet

/-- An outlet into surroundings that are left alone. -/
def into (w : Surroundings) : Outlet :=
  ⟨w, fun _ w => w, 0⟩

/-- An outlet from which nothing goes anywhere. -/
def closed : Outlet :=
  .into ⟨.ofSink .nowhere, .empty [], 0, ""⟩

/-- Sends an event of a session. -/
def emit (o : Outlet) (id : Text) (e : Event) : Outlet :=
  { o with surroundings := (o.turn o.sent o.surroundings).emit id e, sent := o.sent + 1 }

end Outlet

end TagFormula
