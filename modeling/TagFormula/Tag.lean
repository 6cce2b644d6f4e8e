import TagFormula.Text.Basic
import TagFormula.Number.Binary64

/-!
# Variables and tags

A suggestion is a variable that can be put into a formula: an id, a name and a
value. A tag is a suggestion anchored in a text, where its name occupies the
offsets from `position` up to, and not including, `stop`. The value of a tag is
the one the variable had when it was put in.

Names are not empty, values are finite and positions are not negative when a
suggestion or a tag is made from outside (`Suggestion.faults`, `Tag.faults`); a
tag that is moved keeps its name and value, and is not judged again.
-/

namespace TagFormula

/-- A variable on offer. -/
structure Suggestion where
  /-- What tells it apart from the others. -/
  id : Int
  /-- Its name. -/
  name : Text
  /-- Its value. -/
  value : Float

/-- A variable anchored in a text. -/
structure Tag extends Suggestion where
  /-- The offset of its first character. -/
  position : Int

/-- What is wrong with a field of a suggestion or a tag. -/
inductive FieldFault where
  /-- The name is empty. -/
  | emptyName
  /-- The value is not finite. -/
  | valueNotFinite
  /-- The position is negative. -/
  | negativePosition
deriving DecidableEq, Repr

namespace FieldFault

/-- The field and what is wrong with it. -/
def describe : FieldFault → String
  | emptyName => "name: string_too_short"
  | valueNotFinite => "value: finite_number"
  | negativePosition => "position: greater_than_equal"

/-- Several faults in words. -/
def describeAll (faults : List FieldFault) : String :=
  "; ".intercalate (faults.map describe)

end FieldFault

namespace Suggestion

/-- The faults of a suggestion, in the order of its fields. -/
def faults (s : Suggestion) : List FieldFault :=
  (if s.name.isEmpty then [.emptyName] else []) ++
    (if Binary64.isFinite s.value then [] else [.valueNotFinite])

/-- A suggestion with a name and a finite value. -/
structure Valid (s : Suggestion) : Prop where
  /-- The name is not empty. -/
  name_ne_nil : s.name ≠ []
  /-- The value is finite. -/
  isFinite_value : Binary64.isFinite s.value = true

theorem faults_eq_nil_iff (s : Suggestion) : s.faults = [] ↔ s.Valid := by
  constructor
  · intro h
    simp only [faults, List.append_eq_nil_iff] at h
    exact ⟨by simpa using h.1, by simpa using h.2⟩
  · rintro ⟨hn, hv⟩
    simp [faults, hn, hv]

end Suggestion

namespace Tag

/-- The offset just after the name. -/
def stop (t : Tag) : Int :=
  t.position + t.name.length

/-- A tag moved along the text. -/
def shifted (t : Tag) (by_ : Int) : Tag :=
  { t with position := t.position + by_ }

/-- The faults of a tag, in the order of its fields. -/
def faults (t : Tag) : List FieldFault :=
  t.toSuggestion.faults ++ (if t.position < 0 then [.negativePosition] else [])

/-- A suggestion anchored at an offset. -/
def ofSuggestion (s : Suggestion) (position : Int) : Tag :=
  { s with position }

/-- Files a tag under its id: in the place of the tag that has this id, or else
behind all others. -/
def file (tags : List Tag) (t : Tag) : List Tag :=
  if tags.any (·.id == t.id) then tags.map fun u => if u.id = t.id then t else u
  else tags ++ [t]

/-- Tags filed one after the other, so that every id occurs once. -/
def filed (tags : List Tag) : List Tag :=
  tags.foldl file []

/-- Tags in ascending order of position; those at the same position keep their
order. -/
def ascending (tags : List Tag) : List Tag :=
  tags.mergeSort fun t u => t.position ≤ u.position

/-- Tags in descending order of position; those at the same position keep their
order. -/
def descending (tags : List Tag) : List Tag :=
  tags.mergeSort fun t u => u.position ≤ t.position

@[simp] theorem position_shifted (t : Tag) (d : Int) : (t.shifted d).position = t.position + d := rfl

@[simp] theorem name_shifted (t : Tag) (d : Int) : (t.shifted d).name = t.name := rfl

@[simp] theorem id_shifted (t : Tag) (d : Int) : (t.shifted d).id = t.id := rfl

@[simp] theorem value_shifted (t : Tag) (d : Int) : (t.shifted d).value = t.value := rfl

/-- A valid suggestion has no faults at an offset that is not negative. -/
theorem faults_ofSuggestion {s : Suggestion} (hs : s.Valid) {p : Int} (hp : 0 ≤ p) :
    (ofSuggestion s p).faults = [] := by
  rw [faults, ofSuggestion, (s.faults_eq_nil_iff).2 hs, if_neg (Int.not_lt.2 hp), List.append_nil]

/-- Where an invalid suggestion is anchored makes no difference to its faults. -/
theorem faults_ofSuggestion_ne_nil {s : Suggestion} (hs : ¬ s.Valid) (p : Int) :
    (ofSuggestion s p).faults ≠ [] := by
  intro h
  rw [faults, List.append_eq_nil_iff] at h
  exact hs ((s.faults_eq_nil_iff).1 h.1)

theorem position_le_stop (t : Tag) : t.position ≤ t.stop := by
  rw [stop]
  omega

theorem position_lt_stop {t : Tag} (h : t.name ≠ []) : t.position < t.stop := by
  have hpos := List.length_pos_iff.2 h
  rw [stop]
  omega

end Tag

end TagFormula
