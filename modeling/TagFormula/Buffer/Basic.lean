import TagFormula.Buffer.Error
import TagFormula.Formula.Evaluation
import TagFormula.Tag

/-!
# The formula buffer

A buffer is a line of text with tags anchored in it, a cursor, and possibly an
active tag, which is the one open for inspection. The tags are kept in the
order in which they were put in, each under its own id.

The parts fit together when the cursor lies in the text, the span of every tag
lies in the text and holds the name of the tag, no two spans overlap, and the
active tag is there. `Buffer.Consistent` says this, and `Buffer.check` decides it
and names the first thing that is wrong.
-/

namespace TagFormula

/-- A line of text with tags. -/
structure Buffer where
  /-- The text, names of tags included. -/
  text : Text := []
  /-- The tags, in the order in which they were put in. -/
  tags : List Tag := []
  /-- The offset of the cursor. -/
  cursor : Int := 0
  /-- The id of the active tag. -/
  active : Option Int := none

namespace Buffer

/-- The buffer without text. -/
def empty : Buffer := {}

/-- The number of characters. -/
def length (b : Buffer) : Nat :=
  b.text.length

/-- The ids of the tags, in the order in which they were put in. -/
def ids (b : Buffer) : List Int :=
  b.tags.map (·.id)

/-- Whether a tag has this id. -/
def hasId (b : Buffer) (id : Int) : Bool :=
  b.tags.any (·.id == id)

/-- The tag with an id. -/
def find? (b : Buffer) (id : Int) : Option Tag :=
  b.tags.find? (·.id == id)

/-- The tags by position. -/
def sortedTags (b : Buffer) : List Tag :=
  Tag.ascending b.tags

/-- The tag whose span covers the character at an offset. -/
def tagAt? (b : Buffer) (offset : Int) : Option Tag :=
  b.tags.find? fun t => t.position ≤ offset && offset < t.stop

/-- The tag whose span contains an offset strictly inside. -/
def tagAround? (b : Buffer) (offset : Int) : Option Tag :=
  b.tags.find? fun t => t.position < offset && offset < t.stop

/-- Of two tags the one further to the right, the first when they start
together. -/
def rightmost (t u : Tag) : Tag :=
  if t.position < u.position then u else t

/-- The tag whose span ends at the cursor; of several the one that starts last. -/
def tagBeforeCursor? (b : Buffer) : Option Tag :=
  match b.tags.filter fun t => t.stop == b.cursor with
  | [] => none
  | t :: rest => some (rest.foldl rightmost t)

/-- The value of the formula. -/
def calculate (b : Buffer) : Evaluation :=
  Formula.calculate b.text b.tags

/-- Checks the tags in ascending order, the one before them being `previous`. -/
def checkTags (text : Text) : Option Tag → List Tag → Except Inconsistency Unit
  | _, [] => .ok ()
  | previous, t :: rest =>
    if t.position < 0 ∨ (text.length : Int) < t.stop then
      .error (.spanOutside t.id t.position t.stop)
    else if Slice.between text t.position t.stop ≠ t.name then
      .error (.wrongSpan t.id t.name)
    else
      match previous with
      | some p =>
        if t.position < p.stop then .error (.overlap p.id t.id)
        else checkTags text (some t) rest
      | none => checkTags text (some t) rest

/-- Checks that the parts of a buffer fit together. -/
def check (b : Buffer) : Except Inconsistency Unit :=
  if b.cursor < 0 ∨ (b.length : Int) < b.cursor then
    .error (.cursorOutside b.cursor b.length)
  else
    match checkTags b.text none b.sortedTags with
    | .error fault => .error fault
    | .ok () =>
      match b.active with
      | some id => if b.hasId id then .ok () else .error (.activeMissing id)
      | none => .ok ()

/-- The parts of a buffer fit together. -/
structure Consistent (b : Buffer) : Prop where
  /-- No two tags have the same id. -/
  nodup_ids : b.ids.Nodup
  /-- The cursor does not lie before the text. -/
  cursor_nonneg : 0 ≤ b.cursor
  /-- The cursor does not lie after the text. -/
  cursor_le : b.cursor ≤ b.length
  /-- No tag starts before the text. -/
  position_nonneg : ∀ t ∈ b.tags, 0 ≤ t.position
  /-- No tag ends after the text. -/
  stop_le : ∀ t ∈ b.tags, t.stop ≤ b.length
  /-- Every span holds the name of its tag. -/
  span_eq : ∀ t ∈ b.tags, Slice.between b.text t.position t.stop = t.name
  /-- The spans of two tags do not overlap. -/
  disjoint : b.tags.Pairwise fun t u => t.stop ≤ u.position ∨ u.stop ≤ t.position
  /-- The active tag is there. -/
  active_mem : ∀ id, b.active = some id → id ∈ b.ids

theorem hasId_iff (b : Buffer) (id : Int) : b.hasId id = true ↔ id ∈ b.ids := by
  simp [hasId, ids]

theorem id_of_find? {b : Buffer} {id : Int} {t : Tag} (h : b.find? id = some t) : t.id = id := by
  simpa using List.find?_some h

theorem mem_of_find? {b : Buffer} {id : Int} {t : Tag} (h : b.find? id = some t) : t ∈ b.tags :=
  List.mem_of_find?_eq_some h

/-- The empty buffer is consistent. -/
theorem consistent_empty : empty.Consistent where
  nodup_ids := List.nodup_nil
  cursor_nonneg := Int.le_refl 0
  cursor_le := Int.le_refl 0
  position_nonneg := by simp [empty]
  stop_le := by simp [empty]
  span_eq := by simp [empty]
  disjoint := List.Pairwise.nil
  active_mem := by simp [empty]

end Buffer

end TagFormula
