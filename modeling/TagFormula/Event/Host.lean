import TagFormula.Event.Truncation

/-!
# What the system gives

A log depends on the system that it is on. One read from a file gives no more bytes than the system
hands over at once, and the room for calls in each other limits how deep a value may be that is cut
or read. How much there is of each is for the system to say, and depends also on who asks: calls
that are under way take room as well. All that is assumed is that there is room for whatever can be
written.
-/

namespace TagFormula

/-- The system that a log is on. -/
structure Host where
  /-- The most bytes that one read gives. -/
  chunk : Nat
  /-- How many lists and objects may stand in each other in a text that is read. -/
  nesting : Nat
  /-- The room for the calls by which a context is cut. -/
  stack : Truncation.CallStack
  /-- What can be written is not too deep to be read. -/
  maxDepth_lt_nesting : Event.maxDepth + 1 < nesting
  /-- What can be written is not too deep to be cut. -/
  maxDepth_lt_room : 2 * Event.maxDepth + 1 < stack.room

namespace Host

/-- A system of the usual kind, with nothing else under way. -/
def usual : Host where
  chunk := 0x7FFFF000
  nesting := 990
  stack := ⟨990, false⟩
  maxDepth_lt_nesting := by decide
  maxDepth_lt_room := by decide

end Host

end TagFormula
