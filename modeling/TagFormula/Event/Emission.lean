import TagFormula.Event.Log

/-!
# Emitting events

Whoever emits an event does not want to hear of trouble with the log. An emitter
sends events, cut to length, to where they go. That may fail in several ways
(`DeliveryError`), and whatever the error is, it goes no further: there is a warning,
but no more than one in `warningInterval` seconds.
-/

namespace TagFormula

/-- Where events go. -/
inductive Sink where
  /-- Nowhere. -/
  | nowhere
  /-- To the log of the project. -/
  | log (log : EventLog)
  /-- To a log that fails every time. -/
  | failing

/-- Why an event does not arrive. -/
inductive DeliveryError where
  /-- The log fails. -/
  | broken
  /-- There is no room for the calls by which the context is cut. -/
  | noRoom
  /-- The event is not written. -/
  | write (error : WriteError)
deriving DecidableEq, Repr

/-- Sends events to where they go. -/
structure Emitter where
  /-- Where events go. -/
  sink : Sink
  /-- When the last warning was given, in seconds. -/
  lastWarning : Option Nat

namespace Emitter

/-- The least number of seconds between two warnings. -/
def warningInterval : Nat := 60

/-- An emitter that has not warned yet. -/
def ofSink (sink : Sink) : Emitter :=
  ⟨sink, none⟩

/-- Whether a warning may be given at a time. -/
def mayWarn (em : Emitter) (now : Nat) : Bool :=
  match em.lastWarning with
  | none => true
  | some last => last + warningInterval ≤ now

/-- Sends an event to where it goes. -/
def deliver (sink : Sink) (e : Event) (time : String) (session : Option Text) :
    EStateM DeliveryError Files Unit :=
  match sink with
  | .nowhere => return ()
  | .failing => throw .broken
  | .log log =>
    match e.truncated? log.host.stack with
    | none => throw .noRoom
    | some cut => (EventLog.write cut time session).adaptExcept .write

/-- Emits an event `now` seconds into the run and catches the error if there is one; tells whether
there is a warning. -/
def emit (em : Emitter) (now : Nat) (e : Event) (time : String) (session : Option Text)
    (fs : Files) : Bool × Emitter × Files :=
  match fs.apply (deliver em.sink e time session) with
  | (.ok (), fs) => (false, em, fs)
  | (.error _, fs) =>
    if em.mayWarn now then (true, { em with lastWarning := some now }, fs) else (false, em, fs)

@[simp] theorem sink_emit (em : Emitter) (now : Nat) (e : Event) (time : String)
    (session : Option Text) (fs : Files) : (em.emit now e time session fs).2.1.sink = em.sink := by
  unfold emit
  split
  · rfl
  · split <;> rfl

end Emitter

end TagFormula
