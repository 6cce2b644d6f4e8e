import TagFormula.Json.Basic
import TagFormula.Number.Literal

/-!
# Strict JSON

Strict JSON knows no numbers that are not finite. `strict` puts null in their
place, at any depth, and leaves everything else as it is. What is written to be
read again must also stay within limits: `depth` says how many lists and objects
stand in each other, and `hasLongInteger` asks for integers with more digits than
are read.
-/

namespace TagFormula.Json

/-- A number, or null if it is not finite. -/
def strictDouble (x : Float) : Json :=
  if Binary64.isFinite x then double x else null

mutual

/-- A value with null for every number that is not finite. -/
def strict : Json → Json
  | double x => strictDouble x
  | array items => array (strictItems items)
  | object members => object (strictMembers members)
  | j => j

/-- Items with null for every number that is not finite. -/
def strictItems : List Json → List Json
  | [] => []
  | j :: rest => strict j :: strictItems rest

/-- Members with null for every number that is not finite. -/
def strictMembers : List (JsonString × Json) → List (JsonString × Json)
  | [] => []
  | (key, j) :: rest => (key, strict j) :: strictMembers rest

end

mutual

/-- How many lists and objects stand in each other in a value. -/
def depth : Json → Nat
  | array items => 1 + itemsDepth items
  | object members => 1 + membersDepth members
  | _ => 0

/-- The depth of the deepest item. -/
def itemsDepth : List Json → Nat
  | [] => 0
  | j :: rest => max (depth j) (itemsDepth rest)

/-- The depth of the deepest member. -/
def membersDepth : List (JsonString × Json) → Nat
  | [] => 0
  | (_, j) :: rest => max (depth j) (membersDepth rest)

end

mutual

/-- Whether a value holds an integer with more digits than are read. -/
def hasLongInteger : Json → Bool
  | integer n => Literal.isLong n
  | array items => itemsHaveLong items
  | object members => membersHaveLong members
  | _ => false

/-- Whether one of the items holds such an integer. -/
def itemsHaveLong : List Json → Bool
  | [] => false
  | j :: rest => hasLongInteger j || itemsHaveLong rest

/-- Whether one of the members holds such an integer. -/
def membersHaveLong : List (JsonString × Json) → Bool
  | [] => false
  | (_, j) :: rest => hasLongInteger j || membersHaveLong rest

end

@[simp] theorem keys_strictMembers (ms : List (JsonString × Json)) :
    (strictMembers ms).map (·.1) = ms.map (·.1) := by
  induction ms with
  | nil => rfl
  | cons m rest ih => simp [strictMembers, ih]

@[simp] theorem length_strictItems (xs : List Json) : (strictItems xs).length = xs.length := by
  induction xs with
  | nil => rfl
  | cons j rest ih => simp [strictItems, ih]

end TagFormula.Json
