import TagFormula.Json.String
import TagFormula.Number.Layout

/-!
# JSON values

Integers are kept apart from other numbers and may be of any size. An object is
the list of its members in the order in which their keys were first put in;
putting a value under a key that is there replaces the value in its place.

A value can stand for a condition (`isTrue`): everything does but null, false,
zero, and what is empty. Shown inside a line, a string stands for itself at the
outside and is quoted inside lists and objects (`shown`).
-/

namespace TagFormula

/-- A JSON value. -/
inductive Json where
  /-- No value. -/
  | null
  /-- A truth value. -/
  | bool (b : Bool)
  /-- An integer. -/
  | integer (n : Int)
  /-- Any other number. -/
  | double (x : Float)
  /-- A string. -/
  | string (s : JsonString)
  /-- A list of values. -/
  | array (items : List Json)
  /-- Values under keys, in order. -/
  | object (members : List (JsonString × Json))

namespace Json

/-- Puts a value under a key: in the place of the one that is there, or else
behind all others. -/
def put (members : List (JsonString × Json)) (key : JsonString) (value : Json) :
    List (JsonString × Json) :=
  match members with
  | [] => [(key, value)]
  | (k, v) :: rest => if k = key then (k, value) :: rest else (k, v) :: put rest key value

/-- Members put in one after the other on top of those that are there. -/
def putAll (members extra : List (JsonString × Json)) : List (JsonString × Json) :=
  extra.foldl (fun ms m => put ms m.1 m.2) members

/-- The value under a key. -/
def lookup? (members : List (JsonString × Json)) (key : JsonString) : Option Json :=
  (members.find? fun m => m.1 = key).map (·.2)

/-- The value under a key of an object; nothing for any other value. -/
def field? (j : Json) (key : JsonString) : Option Json :=
  match j with
  | object members => lookup? members key
  | _ => none

/-- Whether a value counts as true where a condition is asked for. -/
def isTrue : Json → Bool
  | null => false
  | bool b => b
  | integer n => n ≠ 0
  | double x => Binary64.magnitude x ≠ 0
  | string s => !s.isEmpty
  | array items => !items.isEmpty
  | object members => !members.isEmpty

/-- The name of the kind of a value, as it stands in messages. -/
def kind : Json → String
  | null => "NoneType"
  | bool _ => "bool"
  | integer _ => "int"
  | double _ => "float"
  | string _ => "str"
  | array _ => "list"
  | object _ => "dict"

mutual

/-- A value as it is shown inside a list or an object. -/
def nested : Json → Text
  | null => "None".toList
  | bool true => "True".toList
  | bool false => "False".toList
  | integer n => intText n
  | double x => doubleText x
  | string s => s.quoted
  | array items => '[' :: nestedItems items ++ [']']
  | object members => '\x7b' :: nestedMembers members ++ ['\x7d']

/-- Values separated by commas. -/
def nestedItems : List Json → Text
  | [] => []
  | [j] => nested j
  | j :: rest => nested j ++ ',' :: ' ' :: nestedItems rest

/-- Keys with their values, separated by commas. -/
def nestedMembers : List (JsonString × Json) → Text
  | [] => []
  | [(key, j)] => key.quoted ++ ':' :: ' ' :: nested j
  | (key, j) :: rest =>
    key.quoted ++ ':' :: ' ' :: nested j ++ ',' :: ' ' :: nestedMembers rest

end

/-- A value as it is shown in a line. -/
def shown : Json → List CodePoint
  | string s => s.points
  | j => (nested j).map .char

/-- A value as it is shown in a text, with U+FFFD for every surrogate. -/
def text (j : Json) : Text :=
  CodePoint.text j.shown

/-- A text as a value. -/
def ofText (t : Text) : Json :=
  string (.ofText t)

@[simp] theorem lookup?_put_self (members : List (JsonString × Json)) (key : JsonString) (value : Json) :
    lookup? (put members key value) key = some value := by
  induction members with
  | nil => simp [put, lookup?]
  | cons m rest ih =>
    obtain ⟨k, v⟩ := m
    by_cases h : k = key
    · simp [put, lookup?, h]
    · simpa [put, lookup?, h] using ih

theorem lookup?_put_of_ne (members : List (JsonString × Json)) {key other : JsonString} (value : Json)
    (h : other ≠ key) : lookup? (put members key value) other = lookup? members other := by
  induction members with
  | nil => simp [put, lookup?, Ne.symm h]
  | cons m rest ih =>
    obtain ⟨k, v⟩ := m
    by_cases hk : k = key
    · subst hk
      simp [put, lookup?, Ne.symm h]
    · by_cases ho : k = other
      · subst ho
        simp [put, lookup?, hk]
      · simpa [put, lookup?, hk, ho] using ih

end Json

end TagFormula
