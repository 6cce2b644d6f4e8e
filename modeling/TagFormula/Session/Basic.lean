import TagFormula.Buffer.Edit
import TagFormula.Event.Outlet
import TagFormula.Json.Conversion

/-!
# Editing sessions

A session is a formula being edited: a buffer, the term typed to look up a
variable, the suggestions it calls up, and the value of the formula as of the
last change. What happens is told by events. Each of them is sent at once, through
the outlet of the session, and the journal keeps them all, oldest first.

Every tag put in gets an id that the session has not given before and that no
tag of the buffer has. The search for it goes upwards from the ids given so far,
and crosses each id that is taken at most once.
-/

namespace TagFormula

/-- A formula being edited. -/
structure Session where
  /-- The formula. -/
  buffer : Buffer
  /-- Where suggestions for a term come from. -/
  source : Text → List Suggestion
  /-- The id under which events are recorded. -/
  id : Text
  /-- How many suggestions are offered; a negative number leaves out that many at
  the end. -/
  limit : Int
  /-- The term typed to look up a variable. -/
  searchTerm : Text
  /-- Whether suggestions are shown. -/
  showsSuggestions : Bool
  /-- The least id not yet given to a tag. -/
  nextId : Int
  /-- The outcome of the formula as of the last change. -/
  result : Evaluation
  /-- What happened, oldest first. -/
  journal : List Event
  /-- Where events are sent. -/
  outlet : Outlet

namespace Session

/-- How many suggestions are offered if nothing else is said. -/
def defaultLimit : Int := 10

/-- The suggestions on offer. -/
def suggestions (s : Session) : List Suggestion :=
  if !s.showsSuggestions || Text.isBlank s.searchTerm then []
  else Slice.before (s.source s.searchTerm) s.limit

/-- The cursor, or the end of the tag that it stands strictly inside. -/
def insertionPoint (s : Session) : Int :=
  match s.buffer.tagAt? s.buffer.cursor with
  | some t => if t.position < s.buffer.cursor then t.stop else s.buffer.cursor
  | none => s.buffer.cursor

/-- The first of the numbers from `n` on that is not taken. -/
def freeId (taken : List Int) (n : Int) : Int :=
  if h : n ∈ taken then freeId (taken.erase n) (n + 1) else n
termination_by taken.length
decreasing_by
  have := List.length_erase_of_mem h
  have := List.length_pos_of_mem h
  omega

/-- An event of the session as it is now. -/
def event (s : Session) (kind : EventKind) (level : EventLevel) (message : Text)
    (errorCode : Option String) (extra : List (JsonString × Json)) : Event :=
  .ofSession kind level message s.id (some s.buffer.text) errorCode extra

/-- The session with an event sent and added to its journal. -/
def record (s : Session) (kind : EventKind) (level : EventLevel) (message : Text)
    (errorCode : Option String) (extra : List (JsonString × Json)) : Session :=
  let e := s.event kind level message errorCode extra
  { s with journal := s.journal ++ [e], outlet := s.outlet.emit s.id e }

/-- A session with an empty formula and an outlet for its events. -/
def startWith (outlet : Outlet) (source : Text → List Suggestion) (id : Text) (limit : Int) :
    Session :=
  let fresh : Session :=
    { buffer := .empty, source, id, limit, searchTerm := [], showsSuggestions := false,
      nextId := 1, result := .blank, journal := [], outlet }
  fresh.record .sessionStarted .info "Session started".toList none []

/-- A session with an empty formula, the events of which go nowhere. -/
def start (source : Text → List Suggestion) (id : Text) (limit : Int) : Session :=
  startWith .closed source id limit

/-- The session with its formula evaluated anew. -/
def refreshed (s : Session) : Session :=
  let s := { s with result := s.buffer.calculate }
  match s.result with
  | .blank => s
  | .value number _ =>
    s.record .formulaEvaluated .info "Formula evaluated".toList none
      [("value", .ofNumber number)]
  | .failure error _ =>
    s.record .formulaError .warning error.message.toList (some error.code) []

theorem freeId_of_not_mem {taken : List Int} {n : Int} (h : n ∉ taken) : freeId taken n = n := by
  rw [freeId, dif_neg h]

theorem le_freeId (taken : List Int) (n : Int) : n ≤ freeId taken n := by
  fun_induction freeId taken n with
  | case1 taken n h ih => omega
  | case2 => omega

/-- The id found is free. -/
theorem freeId_not_mem (taken : List Int) (n : Int) : freeId taken n ∉ taken := by
  fun_induction freeId taken n with
  | case1 taken n h ih =>
    intro hm
    have := le_freeId (taken.erase n) (n + 1)
    exact ih ((List.mem_erase_of_ne (by omega)).2 hm)
  | case2 taken n h => exact h

@[simp] theorem buffer_record (s : Session) (kind : EventKind) (level : EventLevel)
    (message : Text) (errorCode : Option String) (extra : List (JsonString × Json)) :
    (s.record kind level message errorCode extra).buffer = s.buffer := rfl

@[simp] theorem buffer_refreshed (s : Session) : s.refreshed.buffer = s.buffer := by
  unfold refreshed
  dsimp only
  split <;> rfl

@[simp] theorem source_refreshed (s : Session) : s.refreshed.source = s.source := by
  unfold refreshed
  dsimp only
  split <;> rfl

@[simp] theorem nextId_refreshed (s : Session) : s.refreshed.nextId = s.nextId := by
  unfold refreshed
  dsimp only
  split <;> rfl

@[simp] theorem result_refreshed (s : Session) : s.refreshed.result = s.buffer.calculate := by
  unfold refreshed
  dsimp only
  split <;> rfl

end Session

end TagFormula
