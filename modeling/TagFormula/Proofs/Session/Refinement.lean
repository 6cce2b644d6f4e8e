import TagFormula.Proofs.Session.Actions

/-!
# Runs of a session

An operation is a key press or a gesture with any arguments; only the variables that
are put in, also those that the source of suggestions comes up with, have been judged
valid before. A run starts with a fresh session and goes on whether an operation
succeeds or is refused.

Side by side with the session the editor is driven through the same operations. After
each of them the session shows the editor (`Shows.perform`), so the cells, the cursor
and the search of a session can always be found by looking at the editor alone. The
editor also tells which operations are refused: a click outside the row, and opening a
variable that is not there.
-/

namespace TagFormula

namespace Session

/-- A key press or a gesture. -/
inductive Operation where
  | press (key : Text)
  | typeSearch (term : Text)
  | select (choice : ValidSuggestion)
  | backspace
  | moveLeft
  | moveRight
  | click (offset : Int)
  | focus
  | toggleTag (id : Int)
  | closeTag
  | removeActiveTag
  | reset

/-- The action of an operation, without the value that it returns. -/
def Operation.action : Operation → Action Unit
  | press key => do let _ ← Session.press (.ofName key); return ()
  | typeSearch term => Session.typeSearch term
  | select choice => do let _ ← Session.select choice.val; return ()
  | backspace => Session.backspace
  | moveLeft => Session.moveLeft
  | moveRight => Session.moveRight
  | click offset => Session.click offset
  | focus => Session.focus
  | toggleTag id => do let _ ← Session.toggleTag id; return ()
  | closeTag => Session.closeTag
  | removeActiveTag => do let _ ← Session.removeActiveTag; return ()
  | reset => Session.reset

/-- The session after an operation, whether it succeeds or is refused. -/
def perform (s : Session) (op : Operation) : Session :=
  (s.apply op.action).2

/-- The session after a run of operations that starts with a fresh session. -/
def after (source : Text → List ValidSuggestion) (id : Text) (limit : Int)
    (ops : List Operation) : Session :=
  ops.foldl perform (start (fun term => (source term).map Subtype.val) id limit)

end Session

namespace Editor

/-- The editor after an operation. -/
def perform (e : Editor) : Session.Operation → Editor
  | .press key => e.press (.ofName key)
  | .typeSearch term => e.search term
  | .select choice => e.select choice
  | .backspace => e.backspace
  | .moveLeft => e.moveLeft
  | .moveRight => e.moveRight
  | .click offset => e.click offset
  | .focus => e.focus
  | .toggleTag id => e.toggle id
  | .closeTag => { e with active := none }
  | .removeActiveTag => e.removeActive
  | .reset => e.reset

/-- A click has to fall into the row, and a variable that is opened has to be there. -/
def Accepts (e : Editor) : Session.Operation → Prop
  | .click p => 0 ≤ p ∧ p ≤ Cell.extent e.cells
  | .toggleTag id => id ∈ Cell.ids e.cells
  | _ => True

/-- The editor after a run of operations that starts without cells. -/
def after (source : Text → List ValidSuggestion) (limit : Int)
    (ops : List Session.Operation) : Editor :=
  ops.foldl perform { source, limit }

end Editor

namespace Session

theorem apply_of_run_ok {α : Type} {action : Action α} {s s' : Session} {x : α}
    (h : action.run s = .ok x s') : s.apply action = (.ok x, s') := by
  have h' : action s = .ok x s' := h
  rw [apply, h']

theorem apply_of_run_error {α : Type} {action : Action α} {s s' : Session} {err : BufferError}
    (h : action.run s = .error err s') : s.apply action = (.error err, s') := by
  have h' : action s = .error err s' := h
  rw [apply, h']

theorem shows_start (source : Text → List ValidSuggestion) (id : Text) (limit : Int) :
    (start (fun term => (source term).map Subtype.val) id limit).Shows { source, limit } where
  layout := Buffer.layout_empty
  cursor_eq := rfl
  active_eq := rfl
  source_eq := rfl
  limit_eq := rfl
  searchTerm_eq := rfl
  showsSuggestions_eq := rfl
  nextId_eq := rfl
  ids_lt := by simp

namespace Shows

variable {s : Session} {e : Editor}

/-- An operation that the editor accepts goes through, and brings the session to what
the editor comes to. -/
theorem performs_action (h : s.Shows e) {op : Operation} (hop : e.Accepts op) :
    Performs op.action s (e.perform op) := by
  cases op with
  | press key => exact (h.performs_press _).bind fun _ s₁ h₁ => h₁.performs_pure ()
  | typeSearch term => exact h.performs_typeSearch term
  | select choice => exact (h.performs_select choice).bind fun _ s₁ h₁ => h₁.performs_pure ()
  | backspace => exact h.performs_backspace
  | moveLeft => exact h.performs_moveLeft
  | moveRight => exact h.performs_moveRight
  | click p => exact h.performs_click hop
  | focus => exact h.performs_focus
  | toggleTag id => exact (h.performs_toggleTag hop).bind fun _ s₁ h₁ => h₁.performs_pure ()
  | closeTag => exact h.performs_closeTag
  | removeActiveTag =>
      exact h.performs_removeActiveTag.bind fun _ s₁ h₁ => h₁.performs_pure ()
  | reset => exact h.performs_reset

/-- An operation that the editor does not accept is refused, and neither changes. -/
theorem action_refused (h : s.Shows e) {op : Operation} (hop : ¬ e.Accepts op) :
    (∃ err, op.action.run s = .error err s) ∧ e.perform op = e := by
  cases op with
  | click p => exact ⟨h.click_refused hop, if_neg hop⟩
  | toggleTag id =>
      obtain ⟨err, hrun⟩ := h.toggleTag_refused hop
      refine ⟨⟨err, ?_⟩, if_neg hop⟩
      rw [Operation.action, EStateM.run_bind, hrun]
  | _ => exact absurd trivial hop

theorem perform (h : s.Shows e) (op : Operation) : (s.perform op).Shows (e.perform op) := by
  by_cases hop : e.Accepts op
  · obtain ⟨x, s', hrun, hshows⟩ := h.performs_action hop
    rwa [Session.perform, apply_of_run_ok hrun]
  · obtain ⟨⟨err, hrun⟩, hsame⟩ := h.action_refused hop
    rwa [Session.perform, apply_of_run_error hrun, hsame]

theorem foldl_perform (h : s.Shows e) (ops : List Operation) :
    (ops.foldl Session.perform s).Shows (ops.foldl Editor.perform e) := by
  induction ops generalizing s e with
  | nil => exact h
  | cons op ops ih => exact ih (h.perform op)

theorem succeeds_iff (h : s.Shows e) (op : Operation) :
    (∃ x s', s.apply op.action = (.ok x, s')) ↔ e.Accepts op := by
  constructor
  · rintro ⟨x, s', heq⟩
    refine Classical.byContradiction fun hop => ?_
    obtain ⟨⟨err, hrun⟩, -⟩ := h.action_refused hop
    rw [apply_of_run_error hrun] at heq
    exact nomatch heq
  · intro hop
    obtain ⟨x, s', hrun, -⟩ := h.performs_action hop
    exact ⟨x, s', apply_of_run_ok hrun⟩

end Shows

/-- A session that is driven by its own operations is an editor for rows of cells. Its
buffer reads as the row of the editor, and the cursor stands where the cells to the left
of the editor's cursor end, so it is never strictly inside a tag. The active tag, the
search term and the suggestions are those of the editor, and the operations that succeed
are those that the editor accepts. -/
theorem refines_editor (source : Text → List ValidSuggestion) (id : Text) (limit : Int)
    (ops : List Operation) :
    let s := after source id limit ops
    let e := Editor.after source limit ops
    s.buffer.cells = e.left ++ e.right ∧ s.buffer.cursor = Cell.extent e.left ∧
      s.buffer.IsBoundary s.buffer.cursor ∧ s.buffer.active = e.active ∧
      s.searchTerm = e.searchTerm ∧ s.suggestions = e.suggestions.map Subtype.val ∧
      ∀ op : Operation, (∃ x s', s.apply op.action = (.ok x, s')) ↔ e.Accepts op := by
  have h : (after source id limit ops).Shows (Editor.after source limit ops) :=
    (shows_start source id limit).foldl_perform ops
  exact ⟨h.layout.cells_eq, h.cursor_eq, h.isBoundary, h.active_eq, h.searchTerm_eq,
    h.suggestions_eq, h.succeeds_iff⟩

end Session

end TagFormula
