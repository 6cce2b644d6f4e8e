import TagFormula.Proofs.Event.Contexts

/-!
# How long the strings of a cut context are

A string that is cut keeps its first characters and gets the mark, no more
(`Truncation.points_cutString`). So in a context that is cut to length the strings are no longer
than `maxLength` characters and the mark, at any depth, with one exception: a list that is an item
of a list is left as it is, whatever it holds (`Truncation.strings_truncated`).
-/

namespace TagFormula

namespace CodePoint

theorem joined_take {ps : List CodePoint} (h : Joined ps) (n : Nat) : Joined (ps.take n) := by
  induction ps generalizing n with
  | nil => rw [List.take_nil]; trivial
  | cons a ps ih =>
      cases n with
      | zero => trivial
      | succ n =>
          rw [List.take_succ_cons]
          cases ps with
          | nil => rw [List.take_nil]; trivial
          | cons b ps =>
              cases n with
              | zero => trivial
              | succ n => exact ⟨h.1, ih h.2 (n + 1)⟩

/-- Characters may stand behind any code points. -/
theorem joined_append_chars {ps : List CodePoint} (h : Joined ps) (t : Text) :
    Joined (ps ++ t.map char) := by
  induction ps with
  | nil => exact joined_map_char t
  | cons a ps ih =>
      cases ps with
      | nil =>
          refine joined_cons (fun b hb => ?_) (joined_map_char t)
          obtain ⟨c, -, rfl⟩ := List.mem_map.1 (List.mem_of_mem_head? hb)
          exact pair?_char_right a c
      | cons b ps => exact ⟨h.1, ih h.2⟩

end CodePoint

namespace Json

/-! ## Values from the inside -/

/-- What holds of a list or an object when it holds of its parts holds of every value. -/
theorem induction_parts {P : Json → Prop} (null : P .null) (bool : ∀ b, P (.bool b))
    (integer : ∀ n, P (.integer n)) (double : ∀ x, P (.double x)) (string : ∀ s, P (.string s))
    (array : ∀ xs, (∀ j ∈ xs, P j) → P (.array xs))
    (object : ∀ ms : List (JsonString × Json), (∀ m ∈ ms, P m.2) → P (.object ms)) (j : Json) :
    P j := by
  cases j with
  | null => exact null
  | bool b => exact bool b
  | integer n => exact integer n
  | double x => exact double x
  | string s => exact string s
  | array xs => exact array xs fun j hj => induction_parts null bool integer double string array object j
  | object ms =>
      exact object ms fun m hm => induction_parts null bool integer double string array object m.2
termination_by sizeOf j
decreasing_by
  · have := List.sizeOf_lt_of_mem hj
    simp only [Json.array.sizeOf_spec]
    omega
  · have := List.sizeOf_lt_of_mem hm
    obtain ⟨key, j⟩ := m
    simp only [Prod.mk.sizeOf_spec] at this
    simp only [Json.object.sizeOf_spec]
    omega

/-- A string stands somewhere in a value; keys do not count. -/
inductive Holds (s : JsonString) : Json → Prop
  | string : Holds s (string s)
  | array {xs : List Json} {j : Json} (hj : j ∈ xs) (h : Holds s j) : Holds s (array xs)
  | object {ms : List (JsonString × Json)} {m : JsonString × Json} (hm : m ∈ ms)
      (h : Holds s m.2) : Holds s (object ms)

/-- A string stands in a list that is an item of a list, somewhere in a value. -/
inductive HoldsInList (s : JsonString) : Json → Prop
  | here {xs ys : List Json} (hys : array ys ∈ xs) (h : Holds s (array ys)) :
      HoldsInList s (array xs)
  | array {xs : List Json} {j : Json} (hj : j ∈ xs) (h : HoldsInList s j) : HoldsInList s (array xs)
  | object {ms : List (JsonString × Json)} {m : JsonString × Json} (hm : m ∈ ms)
      (h : HoldsInList s m.2) : HoldsInList s (object ms)

variable {s : JsonString}

theorem holds_string_iff {u : JsonString} : Holds s (string u) ↔ s = u := by
  constructor
  · rintro ⟨⟩
    rfl
  · rintro rfl
    exact .string

theorem holds_array_iff {xs : List Json} : Holds s (array xs) ↔ ∃ j ∈ xs, Holds s j := by
  constructor
  · rintro (_ | ⟨hj, h⟩)
    exact ⟨_, hj, h⟩
  · rintro ⟨j, hj, h⟩
    exact .array hj h

theorem holds_object_iff {ms : List (JsonString × Json)} :
    Holds s (object ms) ↔ ∃ m ∈ ms, Holds s m.2 := by
  constructor
  · rintro (_ | _ | ⟨hm, h⟩)
    exact ⟨_, hm, h⟩
  · rintro ⟨m, hm, h⟩
    exact .object hm h

theorem HoldsInList.holds {j : Json} (h : HoldsInList s j) : Holds s j := by
  induction h with
  | here hys h => exact .array hys h
  | array hj _ ih => exact .array hj ih
  | object hm _ ih => exact .object hm ih

end Json

namespace Truncation

/-! ## One string -/

/-- A string that is cut keeps its first characters, and the mark stands behind them. -/
theorem points_cutString {s : JsonString} (h : maxLength < s.length) :
    (cutString s).points = s.points.take maxLength ++ mark.map .char := by
  rw [cutString, if_pos h, JsonString.ofPoints]
  exact CodePoint.join_of_joined
    (CodePoint.joined_append_chars (CodePoint.joined_take s.joined maxLength) mark)

theorem length_cutString_le (s : JsonString) : (cutString s).length ≤ maxLength + mark.length := by
  by_cases h : maxLength < s.length
  · rw [JsonString.length, points_cutString h, List.length_append, List.length_map,
      List.length_take]
    omega
  · rw [cutString, if_neg h]
    omega

/-! ## All strings -/

variable {s : JsonString}

/-- A string in a value that is cut to length is short or stands in a list that is an item of a
list; if the value is cut as an item, it may be such a list itself. -/
theorem length_le_of_holds (j : Json) :
    (Json.Holds s (value j) →
      s.length ≤ maxLength + mark.length ∨ Json.HoldsInList s j) ∧
    (Json.Holds s (item j) →
      s.length ≤ maxLength + mark.length ∨ Json.HoldsInList s j ∨
        ∃ ys, j = .array ys ∧ Json.Holds s (.array ys)) := by
  -- By induction on the value; an object is cut in the same way as a member and as an item.
  induction j using Json.induction_parts with
  | null => exact ⟨nofun, nofun⟩
  | bool b => exact ⟨nofun, nofun⟩
  | integer n => exact ⟨nofun, nofun⟩
  | double x => exact ⟨nofun, nofun⟩
  | string u =>
      have hshort (h : Json.Holds s (.string (cutString u))) :
          s.length ≤ maxLength + mark.length :=
        Json.holds_string_iff.1 h ▸ length_cutString_le u
      exact ⟨fun h => .inl (hshort h), fun h => .inl (hshort h)⟩
  | array xs ih =>
      refine ⟨fun h => ?_, fun h => .inr (.inr ⟨xs, rfl, h⟩)⟩
      rw [value, items_eq, Json.holds_array_iff] at h
      obtain ⟨_, hmem, h⟩ := h
      obtain ⟨j, hj, rfl⟩ := List.mem_map.1 hmem
      rcases (ih j hj).2 h with hshort | hnested | ⟨ys, rfl, hys⟩
      · exact .inl hshort
      · exact .inr (.array hj hnested)
      · exact .inr (.here hj hys)
  | object ms ih =>
      have hmembers (h : Json.Holds s (.object (members ms))) :
          s.length ≤ maxLength + mark.length ∨ Json.HoldsInList s (.object ms) := by
        rw [members_eq, Json.holds_object_iff] at h
        obtain ⟨_, hmem, h⟩ := h
        obtain ⟨m, hm, rfl⟩ := List.mem_map.1 hmem
        exact ((ih m hm).1 h).imp_right fun hnested => .object hm hnested
      exact ⟨hmembers, fun h => (hmembers h).imp_right .inl⟩

/-- Strings in a list that is an item of a list stay. -/
theorem holds_of_holdsInList {j : Json} (h : Json.HoldsInList s j) :
    Json.Holds s (value j) ∧ Json.Holds s (item j) := by
  induction h with
  | here hys h =>
      refine ⟨?_, .array hys h⟩
      rw [value, items_eq]
      exact .array (List.mem_map_of_mem hys) h
  | array hj h ih =>
      refine ⟨?_, .array hj h.holds⟩
      rw [value, items_eq]
      exact .array (List.mem_map_of_mem hj) ih.2
  | @object ms m hm _ ih =>
      have hmembers : Json.Holds s (.object (members ms)) := by
        rw [members_eq]
        exact .object (List.mem_map_of_mem hm) ih.1
      exact ⟨hmembers, hmembers⟩

/-- In a context that is cut to length no string is longer than `maxLength` characters and the mark,
unless it stands in a list that is an item of a list; all strings in such lists stay. -/
theorem strings_truncated (ms : List (JsonString × Json)) :
    (∀ s, Json.Holds s (.object (members ms)) →
      s.length ≤ maxLength + mark.length ∨ Json.HoldsInList s (.object ms)) ∧
    ∀ s, Json.HoldsInList s (.object ms) → Json.Holds s (.object (members ms)) :=
  ⟨fun _ => (length_le_of_holds (.object ms)).1, fun _ h => (holds_of_holdsInList h).1⟩

end Truncation

end TagFormula
