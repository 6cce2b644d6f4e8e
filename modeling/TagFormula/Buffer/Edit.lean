import TagFormula.Buffer.Basic

/-!
# Editing a buffer

An edit is an action on a buffer that may be refused. Edits judge their
arguments first. Those that change the text then run as a transaction: the
change is made, the buffer is checked, and if an inconsistency is the error the
buffer from before the change is put back. Only for this error it is: when the
inconsistency cannot be put into words, the change stays. Up to that a refused edit
leaves the buffer as it was, whatever state it was in.

Text is put in at an offset that lies in the text and not strictly inside a
tag, and the tags that start there or later move on. A range is deleted together
with the tags that lie inside it and is not allowed to cut a tag.
-/

namespace TagFormula.Buffer

/-- An action on a buffer that may be refused. -/
abbrev Edit := EStateM BufferError Buffer

/-- Runs an edit; the buffer afterwards is there also when the edit is refused. -/
def apply {α : Type} (b : Buffer) (edit : Edit α) : Except BufferError α × Buffer :=
  match edit b with
  | .ok x b => (.ok x, b)
  | .error e b => (.error e, b)

/-! ## Changes of the text -/

/-- Moves a tag on when it starts at an offset or later. -/
def shiftFrom (offset : Int) (by_ : Int) (t : Tag) : Tag :=
  if offset ≤ t.position then t.shifted by_ else t

/-- Puts text in at an offset. -/
def splice (offset : Int) (s : Text) (b : Buffer) : Buffer :=
  { b with
    text := Slice.before b.text offset ++ s ++ Slice.after b.text offset
    tags := b.tags.map (shiftFrom offset s.length) }

/-- Whether a tag lies inside a range. -/
def isInside (start stop : Int) (t : Tag) : Bool :=
  !(t.stop ≤ start || stop ≤ t.position) && (start ≤ t.position && t.stop ≤ stop)

/-- Whether a tag lies partly inside a range and partly outside. -/
def isCut (start stop : Int) (t : Tag) : Bool :=
  !(t.stop ≤ start || stop ≤ t.position) && !(start ≤ t.position && t.stop ≤ stop)

/-- Takes a range out, with the tags inside it. -/
def cut (start stop : Int) (b : Buffer) : Buffer :=
  let text := Slice.before b.text start ++ Slice.after b.text stop
  let dropped := (b.tags.filter (isInside start stop)).map (·.id)
  { text
    tags := (b.tags.filter fun t => !isInside start stop t).map
      (shiftFrom stop (-(stop - start)))
    cursor := min b.cursor text.length
    active := b.active.filter fun id => !dropped.contains id }

/-- Puts a tag in at its position, and the cursor behind it. -/
def place (t : Tag) (b : Buffer) : Buffer :=
  let b := b.splice t.position t.name
  { b with tags := b.tags ++ [t], cursor := t.stop }

/-- Takes a tag out with its text, and puts the cursor where it was. -/
def takeOut (t : Tag) (b : Buffer) : Buffer :=
  { text := Slice.before b.text t.position ++ Slice.after b.text t.stop
    tags := (b.tags.filter fun u => u.id ≠ t.id).map
      (shiftFrom (t.position + 1) (-t.name.length))
    cursor := t.position
    active := b.active.filter fun id => id ≠ t.id }

/-! ## Edits -/

/-- Ends an edit with an error, as far as there are words for it. -/
def refuse {α : Type} (e : BufferError) : Edit α :=
  throw e.raised

/-- Refuses an inconsistent buffer. -/
def requireConsistent : Edit Unit := do
  match (← get).check with
  | .ok () => return ()
  | .error fault => refuse (.inconsistent fault)

/-- Changes the buffer and puts the one from before back if an inconsistency is raised. -/
def transaction (change : Buffer → Buffer) : Edit Unit := fun before =>
  match requireConsistent (change before) with
  | .ok () after => .ok () after
  | .error (.inconsistent fault) _ => .error (.inconsistent fault) before
  | .error e after => .error e after

/-- Refuses an offset outside the text. -/
def requireOffset (offset : Int) : Edit Unit := do
  let b ← get
  if offset < 0 ∨ (b.length : Int) < offset then refuse (.outOfRange .outside offset b.length)

/-- Refuses an offset strictly inside a tag. -/
def requireBoundary (offset : Int) (what : Cut) : Edit Unit := do
  match (← get).tagAround? offset with
  | some t => refuse (.cutsTag what t.id)
  | none => return ()

/-- Refuses a tag with faults. -/
def requireValid (t : Tag) : Edit Unit :=
  if t.faults.isEmpty then return () else refuse (.invalid t.faults)

/-- The tag with an id, which has to be there. -/
def getTag (id : Int) : Edit Tag := do
  let b ← get
  match b.find? id with
  | some t => return t
  | none => refuse (.tagNotFound id (b.ids.mergeSort (· ≤ ·)))

/-- The active tag, which has to be there if its id is set. -/
def activeTag : Edit (Option Tag) := do
  let b ← get
  match b.active with
  | none => return none
  | some id =>
    match b.find? id with
    | some t => return some t
    | none => refuse (.noActiveTag id)

/-- Puts text in at an offset; the cursor stays at its offset. -/
def insertText (offset : Int) (s : Text) : Edit Unit := do
  requireOffset offset
  requireBoundary offset .text
  if s.isEmpty then return ()
  transaction (splice offset s)

/-- Deletes the text from one offset to another with the tags inside. The cursor
stays at its offset as far as the text reaches. -/
def deleteRange (start stop : Int) : Edit Unit := do
  let b ← get
  if stop < start then refuse (.outOfRange .crossed start b.length)
  requireOffset start
  requireOffset stop
  if start = stop then return ()
  match b.tags.find? (isCut start stop) with
  | some t => refuse (.cutsTag .range t.id)
  | none => transaction (cut start stop)

/-- Puts a tag in at an offset, and the cursor behind it. -/
def insertTag (s : Suggestion) (offset : Int) : Edit Tag := do
  if (← get).hasId s.id then refuse (.duplicateId s.id)
  requireOffset offset
  requireBoundary offset .tag
  let t := Tag.ofSuggestion s offset
  requireValid t
  transaction (place t)
  return t

/-- Removes a tag with its text, and puts the cursor where it was. -/
def removeTag (id : Int) : Edit Tag := do
  let t ← getTag id
  transaction (takeOut t)
  return t

/-- Puts the cursor at an offset. -/
def setCursor (offset : Int) : Edit Unit := do
  requireOffset offset
  modify ({ · with cursor := offset })

/-- Makes a tag active, or none. -/
def setActive (id : Option Int) : Edit Unit := do
  match id with
  | some id => let _ ← getTag id
  | none => pure ()
  modify ({ · with active := id })

/-- Makes a tag active, or none if it is active already; gives the id of the
active tag afterwards. -/
def toggleActive (id : Int) : Edit (Option Int) := do
  let _ ← getTag id
  modify fun b => { b with active := if b.active = some id then none else some id }
  return (← get).active

/-- Makes the buffer empty. -/
def reset : Edit Unit :=
  set empty

end TagFormula.Buffer
