import TagFormula.Number.Layout
import TagFormula.Number.Literal
import TagFormula.Tag
import TagFormula.Text.Quoted

/-!
# Why an edit of a buffer is refused

An edit is refused because of its arguments (an offset, an id, a place inside a
tag, a name or a value that no tag may have), or because it would leave the buffer
inconsistent, in which case the inconsistency is the reason. Every reason has a
message, which is put into words when the edit is refused. An integer with too many
digits cannot be written, and if the message is to name one, this is the error that
is raised in the place of the reason (`BufferError.raised`).
-/

namespace TagFormula

/-- What is wrong with an offset or a range. -/
inductive RangeFault where
  /-- It lies outside the text. -/
  | outside
  /-- The start of a range lies after its end. -/
  | crossed
deriving DecidableEq, Repr

/-- What would cut a tag. -/
inductive Cut where
  /-- Putting in text. -/
  | text
  /-- Putting in another tag. -/
  | tag
  /-- Deleting a range. -/
  | range
deriving DecidableEq, Repr

/-- How the parts of a buffer can contradict each other. -/
inductive Inconsistency where
  /-- The cursor lies outside the text. -/
  | cursorOutside (cursor : Int) (length : Nat)
  /-- The span of a tag lies outside the text. -/
  | spanOutside (id position stop : Int)
  /-- The span of a tag does not hold its name. -/
  | wrongSpan (id : Int) (name : Text)
  /-- The spans of two tags overlap. -/
  | overlap (first second : Int)
  /-- The active tag is not there. -/
  | activeMissing (id : Int)
deriving DecidableEq, Repr

/-- Why an edit of a buffer is refused. -/
inductive BufferError where
  /-- An offset or a range does not fit the text. -/
  | outOfRange (fault : RangeFault) (offset : Int) (length : Nat)
  /-- A tag with this id is there already. -/
  | duplicateId (id : Int)
  /-- No tag has this id; the ids that are there, in ascending order. -/
  | tagNotFound (id : Int) (available : List Int)
  /-- A tag would be cut. -/
  | cutsTag (cut : Cut) (id : Int)
  /-- The buffer is, or would become, inconsistent. -/
  | inconsistent (fault : Inconsistency)
  /-- The active tag, asked for, is not there. -/
  | noActiveTag (id : Int)
  /-- The tag to be put in has these faults. -/
  | invalid (faults : List FieldFault)
  /-- The message names an integer with more digits than are written. -/
  | integerTooLong
deriving DecidableEq, Repr

/-- An integer in a message. -/
def shownInt (n : Int) : String :=
  String.ofList (intText n)

namespace RangeFault

/-- A fault in words. -/
def describe : RangeFault → String
  | outside => "Offset out of range"
  | crossed => "Range start is after range end"

end RangeFault

namespace Cut

/-- What would be done to the tag, in words. -/
def describe : Cut → String
  | text => "Cannot insert text inside a tag"
  | tag => "Cannot insert a tag inside another tag"
  | range => "Range partially overlaps a tag"

end Cut

namespace Inconsistency

/-- An inconsistency in words. -/
def describe : Inconsistency → String
  | cursorOutside cursor length =>
    "Cursor " ++ shownInt cursor ++ " outside text of length " ++ shownInt length
  | spanOutside id position stop =>
    "Tag " ++ shownInt id ++ " span [" ++ shownInt position ++ ", " ++ shownInt stop ++
      ") out of range"
  | wrongSpan id name =>
    "Tag " ++ shownInt id ++ " span does not match its name " ++ String.ofList (Text.quoted name)
  | overlap first second => "Tags " ++ shownInt first ++ " and " ++ shownInt second ++ " overlap"
  | activeMissing id => "Active tag " ++ shownInt id ++ " is not present"

/-- The integers that the words for an inconsistency name. -/
def integers : Inconsistency → List Int
  | cursorOutside cursor length => [cursor, length]
  | spanOutside id position stop => [id, position, stop]
  | wrongSpan id _ => [id]
  | overlap first second => [first, second]
  | activeMissing id => [id]

/-- Whether there are words for an inconsistency. -/
def IsWordable (fault : Inconsistency) : Prop :=
  ∀ n ∈ fault.integers, Literal.isLong n = false

instance (fault : Inconsistency) : Decidable fault.IsWordable :=
  inferInstanceAs (Decidable (∀ n ∈ fault.integers, Literal.isLong n = false))

end Inconsistency

namespace BufferError

/-- Wording of an offset that does not fit; the numbers are given together or not
at all. -/
def outOfRangeWording (detail : String) (offset length : Option Int) : String :=
  match offset, length with
  | some offset, some length =>
    detail ++ " (offset " ++ shownInt offset ++ ", length " ++ shownInt length ++ ")"
  | _, _ => detail

/-- Wording of an id that is taken. -/
def duplicateIdWording (id : Int) : String :=
  "Tag id already present: " ++ shownInt id

/-- Wording of an id that is not there; no ids are listed when there are none. -/
def tagNotFoundWording (id : Int) (available : List Int) : String :=
  "Unknown tag id: " ++ shownInt id ++
    if available.isEmpty then ""
    else ". Available: [" ++ ", ".intercalate (available.map shownInt) ++ "]"

/-- Wording of a tag that would be cut. -/
def cutsTagWording (detail : String) (id : Int) : String :=
  detail ++ " (tag " ++ shownInt id ++ ")"

/-- The message of an error. -/
def message : BufferError → String
  | outOfRange fault offset length => outOfRangeWording fault.describe (some offset) (some length)
  | duplicateId id => duplicateIdWording id
  | tagNotFound id available => tagNotFoundWording id available
  | cutsTag cut id => cutsTagWording cut.describe id
  | inconsistent fault => fault.describe
  | noActiveTag id => shownInt id
  | invalid faults => FieldFault.describeAll faults
  | integerTooLong => Literal.limitWording ""

/-- The name of the class of an error. -/
def className : BufferError → String
  | outOfRange _ _ _ => "OutOfRangeError"
  | duplicateId _ => "DuplicateIdError"
  | tagNotFound _ _ => "TagNotFoundError"
  | cutsTag _ _ => "TagSpanError"
  | inconsistent _ => "InvariantViolationError"
  | noActiveTag _ => "KeyError"
  | invalid _ => "ValidationError"
  | integerTooLong => "ValueError"

/-- The integers that are put into words when an error is raised. That the active tag is not there
is found out by a lookup, which says nothing. -/
def integers : BufferError → List Int
  | outOfRange _ offset length => [offset, length]
  | duplicateId id => [id]
  | tagNotFound id available => id :: available
  | cutsTag _ id => [id]
  | inconsistent fault => fault.integers
  | noActiveTag _ => []
  | invalid _ => []
  | integerTooLong => []

/-- What is raised for an error: the error itself if there are words for it. -/
def raised (e : BufferError) : BufferError :=
  if ∀ n ∈ e.integers, Literal.isLong n = false then e else integerTooLong

theorem raised_cases (e : BufferError) : e.raised = e ∨ e.raised = integerTooLong := by
  rw [raised]
  split
  · exact .inl rfl
  · exact .inr rfl

theorem raised_of_short {e : BufferError} (h : ∀ n ∈ e.integers, Literal.isLong n = false) :
    e.raised = e :=
  if_pos h

/-- What is raised for an error that is no inconsistency is none either. -/
theorem raised_ne_inconsistent {e : BufferError} (h : ∀ fault, e ≠ inconsistent fault)
    (fault : Inconsistency) : e.raised ≠ inconsistent fault := by
  rcases e.raised_cases with heq | heq
  · rw [heq]
    exact h fault
  · rw [heq]
    nofun

theorem raised_inconsistent_of_isWordable {fault : Inconsistency} (h : fault.IsWordable) :
    (inconsistent fault).raised = inconsistent fault :=
  raised_of_short h

theorem raised_inconsistent_of_not_isWordable {fault : Inconsistency} (h : ¬ fault.IsWordable) :
    (inconsistent fault).raised = integerTooLong :=
  if_neg h

end BufferError

end TagFormula
