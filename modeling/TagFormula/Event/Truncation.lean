import TagFormula.Event.Basic

/-!
# Truncation

Formulas may be of any length, so the strings in the context of an event are cut
before it is written. A string of more than `maxLength` characters keeps that many
and gets a mark. This reaches the values of objects at any depth and the items of
the lists among them; a list inside a list is left as it is.

Every object is cut by a call of its own, inside that for the object around it, and
the room for calls in each other is limited (`CallStack`). `context?` is what is cut
of a context with the room that there is: `members` if the room is enough, and nothing
if it is not.
-/

namespace TagFormula.Truncation

/-- The length up to which strings are kept whole. -/
def maxLength : Nat := 256

/-- What stands for the rest of a string. -/
def mark : Text := "...[truncated]".toList

/-- A string cut to length. -/
def cutString (s : JsonString) : JsonString :=
  if maxLength < s.length then .ofPoints (s.points.take maxLength ++ mark.map .char) else s

mutual

/-- The members of an object, cut to length. -/
def members : List (JsonString × Json) → List (JsonString × Json)
  | [] => []
  | (key, j) :: rest => (key, value j) :: members rest

/-- The value of a member, cut to length. -/
def value : Json → Json
  | .string s => .string (cutString s)
  | .array xs => .array (items xs)
  | .object ms => .object (members ms)
  | j => j

/-- The items of a list, cut to length. -/
def items : List Json → List Json
  | [] => []
  | j :: rest => item j :: items rest

/-- An item of a list, cut to length unless it is a list itself. -/
def item : Json → Json
  | .string s => .string (cutString s)
  | .object ms => .object (members ms)
  | j => j

end

/-! ## Room for calls -/

/-- The room for calls that stand in each other. -/
structure CallStack where
  /-- How many calls there is room for. -/
  room : Nat
  /-- Whether going through the items of a list is a call of its own. -/
  callsPerList : Bool

mutual

/-- How many calls stand in each other below the call for an object. -/
def membersCalls (perList : Nat) : List (JsonString × Json) → Nat
  | [] => 0
  | (_, j) :: rest => max (valueCalls perList j) (membersCalls perList rest)

/-- How many calls stand in each other for the value of a member. -/
def valueCalls (perList : Nat) : Json → Nat
  | .object ms => 1 + membersCalls perList ms
  | .array xs => perList + itemsCalls perList xs
  | _ => 1

/-- How many calls stand in each other for items. -/
def itemsCalls (perList : Nat) : List Json → Nat
  | [] => 0
  | j :: rest => max (itemCalls perList j) (itemsCalls perList rest)

/-- How many calls stand in each other for an item: one for the item, another for an object. -/
def itemCalls (perList : Nat) : Json → Nat
  | .object ms => 2 + membersCalls perList ms
  | _ => 1

end

mutual

/-- The members of an object, cut to length with room for so many calls. -/
def membersWithin (perList room : Nat) :
    List (JsonString × Json) → Option (List (JsonString × Json))
  | [] => some []
  | (key, j) :: rest => do
    let j ← valueWithin perList room j
    let rest ← membersWithin perList room rest
    return (key, j) :: rest

/-- The value of a member, cut to length with room for so many calls. -/
def valueWithin (perList room : Nat) : Json → Option Json
  | .object ms => do
    guard (1 ≤ room)
    return .object (← membersWithin perList (room - 1) ms)
  | .array xs => do
    guard (perList ≤ room)
    return .array (← itemsWithin perList (room - perList) xs)
  | j => do
    guard (1 ≤ room)
    return value j

/-- The items of a list, cut to length with room for so many calls. -/
def itemsWithin (perList room : Nat) : List Json → Option (List Json)
  | [] => some []
  | j :: rest => do
    let j ← itemWithin perList room j
    let rest ← itemsWithin perList room rest
    return j :: rest

/-- An item of a list, cut to length with room for so many calls. -/
def itemWithin (perList room : Nat) : Json → Option Json
  | .object ms => do
    guard (2 ≤ room)
    return .object (← membersWithin perList (room - 2) ms)
  | j => do
    guard (1 ≤ room)
    return item j

end

namespace CallStack

/-- How many calls it takes to go through a list, besides those for its items. -/
def perList (stack : CallStack) : Nat :=
  stack.callsPerList.toNat

/-- How many calls stand in each other when a context is cut. -/
def calls (stack : CallStack) (ms : List (JsonString × Json)) : Nat :=
  1 + membersCalls stack.perList ms

end CallStack

/-- A context cut to length, if there is room for the calls. -/
def context? (stack : CallStack) (ms : List (JsonString × Json)) :
    Option (List (JsonString × Json)) := do
  guard (1 ≤ stack.room)
  membersWithin stack.perList (stack.room - 1) ms

theorem cutString_of_length_le {s : JsonString} (h : s.length ≤ maxLength) : cutString s = s := by
  simp [cutString, Nat.not_lt.2 h]

@[simp] theorem keys_members (ms : List (JsonString × Json)) :
    (members ms).map (·.1) = ms.map (·.1) := by
  induction ms with
  | nil => rfl
  | cons m rest ih => simp [members, ih]

@[simp] theorem length_items (xs : List Json) : (items xs).length = xs.length := by
  induction xs with
  | nil => rfl
  | cons j rest ih => simp [items, ih]

end TagFormula.Truncation

namespace TagFormula.Event

/-- An event whose context is cut to length. -/
def truncated (e : Event) : Event :=
  { e with context := Truncation.members e.context }

/-- An event whose context is cut to length, if there is room for the calls. -/
def truncated? (e : Event) (stack : Truncation.CallStack) : Option Event :=
  (Truncation.context? stack e.context).map fun context => { e with context }

@[simp] theorem kind_truncated (e : Event) : e.truncated.kind = e.kind := rfl

@[simp] theorem level_truncated (e : Event) : e.truncated.level = e.level := rfl

@[simp] theorem message_truncated (e : Event) : e.truncated.message = e.message := rfl

end TagFormula.Event
