/-!
# Text as code points

Every offset of the library counts code points, so a text is the list of its
characters. Offsets are integers: one below zero counts from the end of the
text, and an offset that falls outside is moved to the nearest end. `resolve`
is that rule, and `before`, `after` and `between` cut a list by it. They are
stated for lists of any kind, because the first results of a search are cut by
the same rule.

A character is a Unicode scalar value. A surrogate that stands alone is none, so what
is said of all texts, and of names that are texts, is not said of strings that hold
one. Where such strings occur, in JSON, they are lists of `CodePoint`s.

Classes of characters are given by tables of closed intervals of code points,
read by `inRanges`.
-/

namespace TagFormula

/-- A text, as the list of its code points. -/
abbrev Text := List Char

namespace Slice

variable {α : Type}

/-- The place an offset names in a list of the given length: counted from the
end when it is negative, and moved to the nearest end when it is outside. -/
def resolve (length : Nat) (offset : Int) : Nat :=
  if offset < 0 then (length + offset).toNat else min offset.toNat length

/-- The part of a list before an offset. -/
def before (xs : List α) (stop : Int) : List α :=
  xs.take (resolve xs.length stop)

/-- The part of a list from an offset on. -/
def after (xs : List α) (start : Int) : List α :=
  xs.drop (resolve xs.length start)

/-- The part of a list from one offset to another; empty when they cross. -/
def between (xs : List α) (start stop : Int) : List α :=
  (xs.take (resolve xs.length stop)).drop (resolve xs.length start)

/-- An offset inside the list names its own place. -/
theorem resolve_of_nonneg {length : Nat} {offset : Int} (h₀ : 0 ≤ offset) (h₁ : offset ≤ length) :
    resolve length offset = offset.toNat := by
  unfold resolve
  split <;> omega

@[simp] theorem resolve_natCast {length n : Nat} (h : n ≤ length) :
    resolve length (n : Int) = n := by
  unfold resolve
  split <;> omega

/-- The two sides of an offset make up the list. -/
@[simp] theorem before_append_after (xs : List α) (offset : Int) :
    before xs offset ++ after xs offset = xs := by
  simp [before, after]

end Slice

namespace Text

/-- Whether a code point lies in one of the closed intervals of a table. -/
def inRanges (table : List (Nat × Nat)) (c : Char) : Bool :=
  table.any fun r => r.1 ≤ c.toNat && c.toNat ≤ r.2

end Text

end TagFormula
