import TagFormula.Text.Basic

/-!
# Slices at the joints of a list

A slice is given by integers that are clamped to the list. When a list is
written as an append and the offsets are the places of its joints, the slices
are the parts of the append, and no clamping takes place.
-/

namespace TagFormula

namespace Slice

theorem before_append {α : Type} (xs ys : List α) :
    before (xs ++ ys) (xs.length : Int) = xs := by
  have h : xs.length ≤ (xs ++ ys).length := by simp
  rw [before, resolve_natCast h, List.take_left]

theorem before_of_nonneg {α : Type} (xs : List α) {stop : Int} (h : 0 ≤ stop) :
    before xs stop = xs.take stop.toNat := by
  have hresolve : resolve xs.length stop = min stop.toNat xs.length := if_neg (Int.not_lt.2 h)
  rw [before, hresolve, ← List.take_eq_take_min]

theorem before_map {α β : Type} (g : α → β) (xs : List α) (stop : Int) :
    before (xs.map g) stop = (before xs stop).map g := by
  rw [before, before, List.length_map, List.map_take]

theorem after_of_nonneg {α : Type} (xs : List α) {start : Int} (h : 0 ≤ start) :
    after xs start = xs.drop start.toNat := by
  have hresolve : resolve xs.length start = min start.toNat xs.length := if_neg (Int.not_lt.2 h)
  rw [after, hresolve, ← List.drop_eq_drop_min]

theorem after_append {α : Type} (xs ys : List α) :
    after (xs ++ ys) (xs.length : Int) = ys := by
  have h : xs.length ≤ (xs ++ ys).length := by simp
  rw [after, resolve_natCast h, List.drop_left]

theorem between_append {α : Type} (xs ys zs : List α) :
    between (xs ++ (ys ++ zs)) (xs.length : Int) (xs.length + ys.length : Int) = ys := by
  have hx : xs.length ≤ (xs ++ (ys ++ zs)).length := by simp
  have hy : (xs ++ ys).length ≤ (xs ++ (ys ++ zs)).length := by simp
  have hsum : (xs.length + ys.length : Int) = ((xs ++ ys).length : Int) := by simp
  rw [between, hsum, resolve_natCast hx, resolve_natCast hy, ← List.append_assoc,
    List.take_left, List.drop_left]

/-- Offsets in the list that do not cross are as far apart as the part between them is long. -/
theorem add_length_between {α : Type} (xs : List α) {start stop : Int} (h₀ : 0 ≤ start)
    (h : start ≤ stop) (h₁ : stop ≤ xs.length) : start + (between xs start stop).length = stop := by
  rw [between, resolve_of_nonneg h₀ (Int.le_trans h h₁), resolve_of_nonneg (Int.le_trans h₀ h) h₁,
    List.length_drop, List.length_take]
  omega

theorem add_length_after {α : Type} (xs : List α) {start : Int} (h₀ : 0 ≤ start)
    (h₁ : start ≤ xs.length) : start + (after xs start).length = xs.length := by
  rw [after, resolve_of_nonneg h₀ h₁, List.length_drop]
  omega

end Slice

end TagFormula
