import Mathlib.Data.List.Forall2
import TagFormula.Proofs.Event.Calls

/-!
# The shape of a cut context

Cutting to length touches strings only. What it gives is `Shortened` from what was there: the same
lists, the same keys in the same order, the same leaves, and in the place of a string that same
string or, if it is too long, its first characters and the mark.

A string that has been cut is longer than `maxLength` again, because of the mark. It is cut a second
time, but what is taken off is the mark, and the mark is put back
(`Truncation.cutString_cutString`). A context that is cut is no deeper than before, so where there
was room for the calls there is room again, and the context stays as it is
(`Truncation.truncation_idempotent`).
-/

namespace TagFormula

theorem JsonString.eq_of_points {s s' : JsonString} (h : s.points = s'.points) : s = s' := by
  cases s
  cases s'
  cases h
  rfl

namespace Truncation

/-- A value and what it may become: of the same shape, with the beginning of a string and the mark
in the place of a string that is too long. -/
inductive Shortened : Json → Json → Prop
  | null : Shortened .null .null
  | bool (b : Bool) : Shortened (.bool b) (.bool b)
  | integer (n : Int) : Shortened (.integer n) (.integer n)
  | double (x : Float) : Shortened (.double x) (.double x)
  | kept (s : JsonString) : Shortened (.string s) (.string s)
  | cut {s s' : JsonString} (hlong : maxLength < s.length)
      (hpoints : s'.points = s.points.take maxLength ++ mark.map .char) :
      Shortened (.string s) (.string s')
  | array {xs ys : List Json} (h : List.Forall₂ Shortened xs ys) : Shortened (.array xs) (.array ys)
  | object {ms ns : List (JsonString × Json)} (hkeys : ns.map (·.1) = ms.map (·.1))
      (h : List.Forall₂ Shortened (ms.map (·.2)) (ns.map (·.2))) :
      Shortened (.object ms) (.object ns)

theorem Shortened.refl (j : Json) : Shortened j j := by
  induction j using Json.induction_parts with
  | null => exact .null
  | bool b => exact .bool b
  | integer n => exact .integer n
  | double x => exact .double x
  | string s => exact .kept s
  | array xs ih => exact .array (List.forall₂_same.2 ih)
  | object ms ih => exact .object rfl (List.forall₂_same.2 (List.forall_mem_map.2 ih))

/-! ## Shape -/

theorem shortened_cutString (s : JsonString) : Shortened (.string s) (.string (cutString s)) := by
  by_cases h : maxLength < s.length
  · exact .cut h (points_cutString h)
  · rw [cutString_of_length_le (Nat.not_lt.1 h)]
    exact .kept s

/-- Cut to length a value keeps its shape, as a member and as an item. -/
theorem shortened_value_item (j : Json) : Shortened j (value j) ∧ Shortened j (item j) := by
  induction j using Json.induction_parts with
  | null => exact ⟨.null, .null⟩
  | bool b => exact ⟨.bool b, .bool b⟩
  | integer n => exact ⟨.integer n, .integer n⟩
  | double x => exact ⟨.double x, .double x⟩
  | string s => exact ⟨shortened_cutString s, shortened_cutString s⟩
  | array xs ih =>
      -- As an item a list is left as it is.
      refine ⟨?_, .refl _⟩
      rw [value, items_eq]
      exact .array (List.forall₂_map_right_iff.2 (List.forall₂_same.2 fun j hj => (ih j hj).2))
  | object ms ih =>
      have hmembers : Shortened (.object ms) (.object (members ms)) := by
        refine .object (keys_members ms) ?_
        rw [members_eq, List.map_map, List.forall₂_map_left_iff, List.forall₂_map_right_iff]
        exact List.forall₂_same.2 fun m hm => (ih m hm).1
      exact ⟨hmembers, hmembers⟩

/-! ## Cutting twice -/

theorem cutString_cutString (s : JsonString) : cutString (cutString s) = cutString s := by
  by_cases h : maxLength < s.length
  · have hpoints := points_cutString h
    have htake : (s.points.take maxLength).length = maxLength :=
      List.length_take_of_le (Nat.le_of_lt h)
    have hlong : maxLength < (cutString s).length := by
      rw [JsonString.length, hpoints, List.length_append, htake, List.length_map]
      exact Nat.lt_add_of_pos_right (by decide)
    refine JsonString.eq_of_points ?_
    calc (cutString (cutString s)).points
        = (cutString s).points.take maxLength ++ mark.map .char := points_cutString hlong
      _ = s.points.take maxLength ++ mark.map .char := by rw [hpoints, List.take_left' htake]
      _ = (cutString s).points := hpoints.symm
  · rw [cutString_of_length_le (Nat.not_lt.1 h), cutString_of_length_le (Nat.not_lt.1 h)]

theorem value_value_item_item (j : Json) :
    value (value j) = value j ∧ item (item j) = item j := by
  induction j using Json.induction_parts with
  | null => exact ⟨rfl, rfl⟩
  | bool b => exact ⟨rfl, rfl⟩
  | integer n => exact ⟨rfl, rfl⟩
  | double x => exact ⟨rfl, rfl⟩
  | string s => simp only [value, item, cutString_cutString, and_self]
  | array xs ih =>
      refine ⟨?_, rfl⟩
      rw [value, value, items_eq, items_eq, List.map_map]
      exact congrArg Json.array (List.map_congr_left fun j hj => (ih j hj).2)
  | object ms ih =>
      have hmembers : members (members ms) = members ms := by
        rw [members_eq, members_eq, List.map_map]
        exact List.map_congr_left fun m hm => congrArg (Prod.mk m.1) (ih m hm).1
      simp only [value, item, hmembers, and_self]

/-- A context is cut to length if and only if there is room for the calls, which are at most twice as
many as lists and objects stand in each other, and two. What is cut keeps its shape and the strings
that are short enough, and a second time nothing is changed. -/
theorem truncation_idempotent (stack : CallStack) (ms : List (JsonString × Json)) :
    ((∃ cut, context? stack ms = some cut) ↔ stack.calls ms ≤ stack.room) ∧
    stack.calls ms ≤ 2 * Json.membersDepth ms + 2 ∧
    ∀ cut, context? stack ms = some cut →
      context? stack cut = some cut ∧ Shortened (.object ms) (.object cut) := by
  refine ⟨?_, stack.calls_le ms, fun cut hcut => ?_⟩
  · simp only [context?_eq, Option.ite_none_right_eq_some, Option.some.injEq, exists_and_left,
      exists_eq', and_true]
  · rw [context?_eq, Option.ite_none_right_eq_some, Option.some.injEq] at hcut
    obtain ⟨hroom, rfl⟩ := hcut
    have hobject := (value_value_item_item (.object ms)).1
    refine ⟨?_, (shortened_value_item (.object ms)).1⟩
    rw [context?_eq, stack.calls_members, if_pos hroom]
    exact congrArg some (Json.object.inj hobject)

end Truncation

end TagFormula
