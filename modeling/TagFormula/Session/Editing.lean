import TagFormula.Session.Basic
import TagFormula.Session.Key
import TagFormula.Text.Quoted

/-!
# Editing in a session

The actions of a session turn keys and gestures into edits of its buffer. A digit
or an operator goes in at the cursor, and an operator also clears the search term
and opens the suggestions for the next variable. Other characters extend the
search term. Deleting shortens the search term first, then removes a whole tag
before the cursor, or else one character. The arrows pass over a tag as a whole.

The formula is evaluated anew after every change of its text. An action whose
edit is refused ends there; what was done before it stays.
-/

namespace TagFormula.Session

/-- An action in a session, which a refused edit ends. -/
abbrev Action := EStateM BufferError Session

/-- Runs an action; the session afterwards is there also when an edit is refused. -/
def apply {α : Type} (s : Session) (action : Action α) : Except BufferError α × Session :=
  match action s with
  | .ok x s => (.ok x, s)
  | .error e s => (.error e, s)

/-- An edit of the buffer, without a new evaluation. -/
def edit {α : Type} (change : Buffer.Edit α) : Action α := fun s =>
  match change s.buffer with
  | .ok x b => .ok x { s with buffer := b }
  | .error e b => .error e { s with buffer := b }

/-- Evaluates the formula anew. -/
def refresh : Action Unit :=
  modify refreshed

/-- Sends an event and adds it to the journal. -/
def log (kind : EventKind) (message : Text) (extra : List (JsonString × Json)) : Action Unit :=
  modify fun s => s.record kind .info message none extra

/-! ## Searching -/

/-- Replaces the search term; suggestions are shown unless it is blank. -/
def typeSearch (term : Text) : Action Unit :=
  modify fun s => { s with searchTerm := term, showsSuggestions := !Text.isBlank term }

/-- Hides the suggestions. -/
def hideSuggestions : Action Unit :=
  modify ({ · with showsSuggestions := false })

/-- Clears the search term and shows the suggestions for the next one. -/
def openSearch : Action Unit :=
  modify ({ · with searchTerm := [], showsSuggestions := true })

/-- Takes the next free id. -/
def takeId : Action Int := do
  let s ← get
  let id := freeId s.buffer.ids s.nextId
  set { s with nextId := id + 1 }
  return id

/-- Puts a suggestion in at the cursor as a tag with an id of its own. -/
def select (choice : Suggestion) : Action Tag := do
  let id ← takeId
  let t ← edit (Buffer.insertTag { choice with id } (← get).insertionPoint)
  typeSearch []
  log .tagInserted ("Inserted tag ".toList ++ Text.quoted t.name)
    [("tag_id", .integer t.id), ("suggestion_id", .integer choice.id),
      ("position", .integer t.position)]
  refresh
  return t

/-! ## Text -/

/-- Puts a character in at the cursor. -/
def insertChar (c : Char) : Action Unit := do
  let place := (← get).insertionPoint
  edit (Buffer.insertText place [c])
  edit (Buffer.setCursor (place + 1))
  refresh

/-- Removes a tag. -/
def removeTag (id : Int) : Action Tag := do
  let t ← edit (Buffer.removeTag id)
  log .tagRemoved ("Removed tag ".toList ++ Text.quoted t.name)
    [("tag_id", .integer t.id), ("position", .integer t.position)]
  refresh
  return t

/-- Shortens the search term; without one removes what is before the cursor, a
tag as a whole. -/
def backspace : Action Unit := do
  let s ← get
  let cursor := s.buffer.cursor
  if !s.searchTerm.isEmpty then typeSearch s.searchTerm.dropLast
  else if cursor = 0 then return ()
  else
    match s.buffer.tagBeforeCursor? <|> s.buffer.tagAt? (cursor - 1) with
    | some t => let _ ← removeTag t.id
    | none =>
      edit (Buffer.deleteRange (cursor - 1) cursor)
      edit (Buffer.setCursor (cursor - 1))
      refresh

/-! ## The cursor -/

/-- Moves the cursor to the left by a character or a tag. -/
def moveLeft : Action Unit := do
  let b := (← get).buffer
  if b.cursor = 0 then return ()
  else
    match b.tagAt? (b.cursor - 1) with
    | some t => edit (Buffer.setCursor t.position)
    | none => edit (Buffer.setCursor (b.cursor - 1))

/-- Moves the cursor to the right by a character or a tag. -/
def moveRight : Action Unit := do
  let b := (← get).buffer
  if b.cursor = b.length then return ()
  else
    match b.tagAt? b.cursor with
    | some t => edit (Buffer.setCursor t.stop)
    | none => edit (Buffer.setCursor (b.cursor + 1))

/-- Puts the cursor at the start. -/
def moveToStart : Action Unit :=
  edit (Buffer.setCursor 0)

/-- Puts the cursor at the end. -/
def moveToEnd : Action Unit := do
  edit (Buffer.setCursor (← get).buffer.length)

/-- Puts the cursor at an offset, or at the end of the tag it would split. -/
def click (offset : Int) : Action Unit := do
  edit (Buffer.setCursor offset)
  edit (Buffer.setCursor (← get).insertionPoint)

/-- Moves the cursor from the start of a formula to its end. -/
def focus : Action Unit := do
  let b := (← get).buffer
  if b.cursor = 0 ∧ 0 < b.length then moveToEnd

/-! ## Inspecting tags -/

/-- Opens or closes a tag; gives the id of the tag open afterwards. -/
def toggleTag (id : Int) : Action (Option Int) :=
  edit (Buffer.toggleActive id)

/-- Closes the open tag. -/
def closeTag : Action Unit :=
  edit (Buffer.setActive none)

/-- Removes the open tag, if there is one. -/
def removeActiveTag : Action (Option Tag) := do
  match (← get).buffer.active with
  | none => return none
  | some id => some <$> removeTag id

/-- Begins anew with an empty formula. -/
def reset : Action Unit := do
  edit Buffer.reset
  typeSearch []
  log .sessionReset "Session reset".toList []
  refresh

/-! ## Keys -/

/-- Presses a key; tells whether it was recognised. -/
def press : Key → Action Bool
  | .operator c => do insertChar c; openSearch; return true
  | .digit c => do insertChar c; return true
  | .backspace => do backspace; return true
  | .left => do moveLeft; return true
  | .right => do moveRight; return true
  | .home => do moveToStart; return true
  | .toEnd => do moveToEnd; return true
  | .enter => do
    match (← get).suggestions with
    | [] => return true
    | choice :: _ => let _ ← select choice; return true
  | .escape => do hideSuggestions; return true
  | .character c => do typeSearch ((← get).searchTerm ++ [c]); return true
  | .other => return false

/-- Presses the keys of the characters of a text one after the other. -/
def typeKeys : Text → Action Unit
  | [] => return ()
  | c :: rest => do
    let _ ← press (.ofChar c)
    typeKeys rest

/-- Looks up a term and confirms. -/
def pick (term : Text) : Action Bool := do
  typeSearch term
  press .enter

end TagFormula.Session
