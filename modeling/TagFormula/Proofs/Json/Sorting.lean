import Mathlib.Data.List.Forall2
import Mathlib.Data.List.Nodup
import Mathlib.Data.Option.Basic
import TagFormula.Json.Strict
import TagFormula.Proofs.Json.RoundTrip

/-!
# Members in order

An object is a finite map: no key comes twice, and the order of the members does not
count (`Same`). Putting the members of a value in the order of their keys leaves the same
value (`DistinctKeys.same_sorted`), because what is found under a key is found whatever
the order (`lookup?_perm`).

A value without double keys is readable once null stands for the numbers that are not
finite, if it keeps the limits on depth and on integers; it stays readable when it is
sorted.
-/

namespace TagFormula.Json

/-! ## Objects as finite maps -/

theorem lookup?_eq_some_iff {ms : List (JsonString × Json)} (h : (ms.map (·.1)).Nodup)
    {key : JsonString} {j : Json} : lookup? ms key = some j ↔ (key, j) ∈ ms := by
  induction ms with
  | nil => simp [lookup?]
  | cons m ms ih =>
      obtain ⟨k, v⟩ := m
      rw [List.map_cons, List.nodup_cons] at h
      by_cases hk : k = key
      · subst hk
        have hnone : (k, j) ∉ ms := fun hmem => h.1 (List.mem_map.2 ⟨(k, j), hmem, rfl⟩)
        simp [lookup?, hnone, eq_comm]
      · have hfind : lookup? ((k, v) :: ms) key = lookup? ms key := by simp [lookup?, hk]
        simp [hfind, ih h.2, Ne.symm hk]

/-- What is found under a key does not depend on the order. -/
theorem lookup?_perm {ms ns : List (JsonString × Json)} (h : (ms.map (·.1)).Nodup)
    (hperm : ms.Perm ns) (key : JsonString) : lookup? ms key = lookup? ns key := by
  have hn : (ns.map (·.1)).Nodup := (hperm.map _).nodup_iff.1 h
  ext j
  rw [lookup?_eq_some_iff h, lookup?_eq_some_iff hn, hperm.mem_iff]

theorem lookup?_map (f : Json → Json) (ms : List (JsonString × Json)) (key : JsonString) :
    lookup? (ms.map fun m => (m.1, f m.2)) key = (lookup? ms key).map f := by
  induction ms with
  | nil => rfl
  | cons m ms ih =>
      by_cases hk : m.1 = key
      · simp [lookup?, hk]
      · simpa [lookup?, hk] using ih

/-- Equal values, where the order of members does not count. -/
inductive Same : Json → Json → Prop
  | null : Same null null
  | bool (b : Bool) : Same (bool b) (bool b)
  | integer (n : Int) : Same (integer n) (integer n)
  | double (x : Float) : Same (double x) (double x)
  | string (s : JsonString) : Same (string s) (string s)
  | array {xs ys : List Json} (h : List.Forall₂ Same xs ys) : Same (array xs) (array ys)
  | object {ms ns : List (JsonString × Json)}
      (h : ∀ key, Option.Rel Same (lookup? ms key) (lookup? ns key)) : Same (object ms) (object ns)

/-- No object has a key twice. -/
inductive DistinctKeys : Json → Prop
  | null : DistinctKeys null
  | bool (b : Bool) : DistinctKeys (bool b)
  | integer (n : Int) : DistinctKeys (integer n)
  | double (x : Float) : DistinctKeys (double x)
  | string (s : JsonString) : DistinctKeys (string s)
  | array {xs : List Json} (h : ∀ j ∈ xs, DistinctKeys j) : DistinctKeys (array xs)
  | object {ms : List (JsonString × Json)} (hkeys : (ms.map (·.1)).Nodup)
      (h : ∀ m ∈ ms, DistinctKeys m.2) : DistinctKeys (object ms)

/-! ## Sorting -/

theorem sortedItems_eq (xs : List Json) : sortedItems xs = xs.map sorted := by
  induction xs with
  | nil => rfl
  | cons j xs ih => rw [sortedItems, ih, List.map_cons]

theorem sortedMembers_eq (ms : List (JsonString × Json)) :
    sortedMembers ms = ms.map fun m => (m.1, m.2.sorted) := by
  induction ms with
  | nil => rfl
  | cons m ms ih => rw [sortedMembers, ih, List.map_cons]

/-- The members of a sorted object. -/
theorem sortMembers_perm (ms : List (JsonString × Json)) :
    (sortMembers (sortedMembers ms)).Perm (ms.map fun m => (m.1, m.2.sorted)) := by
  rw [← sortedMembers_eq]
  exact List.mergeSort_perm ..

theorem keys_sortMembers_perm (ms : List (JsonString × Json)) :
    ((sortMembers (sortedMembers ms)).map (·.1)).Perm (ms.map (·.1)) := by
  have h := (sortMembers_perm ms).map (·.1)
  rwa [List.map_map] at h

/-- Under a key of a sorted object the value is found sorted. -/
theorem lookup?_sortMembers {ms : List (JsonString × Json)} (h : (ms.map (·.1)).Nodup)
    (key : JsonString) :
    lookup? (sortMembers (sortedMembers ms)) key = (lookup? ms key).map sorted := by
  rw [lookup?_perm ((keys_sortMembers_perm ms).nodup_iff.2 h) (sortMembers_perm ms), lookup?_map]

/-- A sorted value is the same value. -/
theorem DistinctKeys.same_sorted {j : Json} (h : DistinctKeys j) : Same j.sorted j := by
  induction h with
  | null => exact .null
  | bool b => exact .bool b
  | integer n => exact .integer n
  | double x => exact .double x
  | string s => exact .string s
  | array h ih =>
      rw [sorted, sortedItems_eq]
      refine .array (List.forall₂_map_left_iff.2 ?_)
      exact List.forall₂_same.2 ih
  | @object ms hkeys h ih =>
      rw [sorted]
      refine .object fun key => ?_
      rw [lookup?_sortMembers hkeys]
      cases hfind : lookup? ms key with
      | none => exact .none
      | some j => exact .some (ih (key, j) ((lookup?_eq_some_iff hkeys).1 hfind))

theorem Readable.sorted {depth : Nat} {j : Json} (h : Readable depth j) :
    Readable depth j.sorted := by
  induction h with
  | null depth => exact .null depth
  | bool depth b => exact .bool depth b
  | integer depth h => exact .integer depth h
  | double depth h => exact .double depth h
  | string depth s => exact .string depth s
  | array h ih =>
      rw [Json.sorted, sortedItems_eq]
      exact .array (List.forall_mem_map.2 ih)
  | @object depth ms hkeys h ih =>
      rw [Json.sorted]
      refine .object ((keys_sortMembers_perm ms).nodup_iff.2 hkeys) fun m hm => ?_
      obtain ⟨n, hn, rfl⟩ := List.mem_map.1 ((sortMembers_perm ms).mem_iff.1 hm)
      exact ih n hn

/-! ## Strict values -/

theorem strictItems_eq (xs : List Json) : strictItems xs = xs.map strict := by
  induction xs with
  | nil => rfl
  | cons j xs ih => rw [strictItems, ih, List.map_cons]

theorem strictMembers_eq (ms : List (JsonString × Json)) :
    strictMembers ms = ms.map fun m => (m.1, m.2.strict) := by
  induction ms with
  | nil => rfl
  | cons m ms ih => rw [strictMembers, ih, List.map_cons]

theorem depth_le_itemsDepth {xs : List Json} {j : Json} (h : j ∈ xs) : depth j ≤ itemsDepth xs := by
  induction xs with
  | nil => exact nomatch h
  | cons k xs ih =>
      rw [itemsDepth]
      rcases List.mem_cons.1 h with rfl | h
      · exact le_max_left _ _
      · exact (ih h).trans (le_max_right _ _)

theorem depth_le_membersDepth {ms : List (JsonString × Json)} {m : JsonString × Json}
    (h : m ∈ ms) : depth m.2 ≤ membersDepth ms := by
  induction ms with
  | nil => exact nomatch h
  | cons n ms ih =>
      rw [membersDepth]
      rcases List.mem_cons.1 h with rfl | h
      · exact le_max_left _ _
      · exact (ih h).trans (le_max_right _ _)

theorem itemsHaveLong_eq (xs : List Json) : itemsHaveLong xs = xs.any hasLongInteger := by
  induction xs with
  | nil => rfl
  | cons j xs ih => rw [itemsHaveLong, ih, List.any_cons]

theorem membersHaveLong_eq (ms : List (JsonString × Json)) :
    membersHaveLong ms = ms.any fun m => m.2.hasLongInteger := by
  induction ms with
  | nil => rfl
  | cons m ms ih => rw [membersHaveLong, ih, List.any_cons]

/-- A value is readable when it is strict, if it is not too deep and its integers are not too
long. -/
theorem DistinctKeys.readable_strict {j : Json} (h : DistinctKeys j) {limit : Nat}
    (hdepth : depth j ≤ limit) (hlong : hasLongInteger j.strict = false) :
    Readable limit j.strict := by
  induction h generalizing limit with
  | null => exact .null limit
  | bool b => exact .bool limit b
  | integer n => exact .integer limit hlong
  | double x =>
      rw [strict, strictDouble]
      split
      · next hx => exact .double limit hx
      · exact .null limit
  | string s => exact .string limit s
  | @array xs h ih =>
      rw [depth] at hdepth
      rw [strict, strictItems_eq] at hlong ⊢
      rw [hasLongInteger, itemsHaveLong_eq, List.any_map, List.any_eq_false] at hlong
      obtain ⟨limit, rfl⟩ : ∃ n, limit = n + 1 := ⟨limit - 1, by omega⟩
      refine .array (List.forall_mem_map.2 fun j hj => ih j hj ?_ ?_)
      · have := depth_le_itemsDepth hj
        omega
      · exact eq_false_of_ne_true (hlong j hj)
  | @object ms hkeys h ih =>
      rw [depth] at hdepth
      rw [strict] at hlong ⊢
      obtain ⟨limit, rfl⟩ : ∃ n, limit = n + 1 := ⟨limit - 1, by omega⟩
      refine .object (by rwa [keys_strictMembers]) ?_
      rw [hasLongInteger, membersHaveLong_eq, strictMembers_eq, List.any_map,
        List.any_eq_false] at hlong
      rw [strictMembers_eq]
      refine List.forall_mem_map.2 fun m hm => ih m hm ?_ ?_
      · have := depth_le_membersDepth hm
        omega
      · exact eq_false_of_ne_true (hlong m hm)

theorem DistinctKeys.strict {j : Json} (h : DistinctKeys j) : DistinctKeys j.strict := by
  induction h with
  | null => exact .null
  | bool b => exact .bool b
  | integer n => exact .integer n
  | double x =>
      rw [Json.strict, strictDouble]
      split
      · exact .double x
      · exact .null
  | string s => exact .string s
  | array h ih =>
      rw [Json.strict, strictItems_eq]
      exact .array (List.forall_mem_map.2 ih)
  | object hkeys h ih =>
      rw [Json.strict]
      refine .object (by rwa [keys_strictMembers]) ?_
      rw [strictMembers_eq]
      exact List.forall_mem_map.2 ih

/-- A string in the place of a member is there in the strict object, and no other is. -/
theorem lookup?_strictMembers_string {ms : List (JsonString × Json)} {key : JsonString}
    {s : JsonString} :
    lookup? (strictMembers ms) key = some (.string s) ↔ lookup? ms key = some (.string s) := by
  rw [strictMembers_eq, lookup?_map]
  cases lookup? ms key with
  | none => simp
  | some j =>
      cases j with
      | double x =>
          have h : Json.strict (.double x) ≠ .string s := by
            rw [Json.strict, strictDouble]
            split <;> nofun
          simp [h]
      | _ => simp [Json.strict]

theorem Readable.mono {depth limit : Nat} {j : Json} (h : Readable depth j) (hle : depth ≤ limit) :
    Readable limit j := by
  induction h generalizing limit with
  | null _ => exact .null limit
  | bool _ b => exact .bool limit b
  | integer _ h => exact .integer limit h
  | double _ h => exact .double limit h
  | string _ s => exact .string limit s
  | array h ih =>
      obtain ⟨limit, rfl⟩ : ∃ n, limit = n + 1 := ⟨limit - 1, by omega⟩
      exact .array fun j hj => ih j hj (Nat.le_of_succ_le_succ hle)
  | object hkeys h ih =>
      obtain ⟨limit, rfl⟩ : ∃ n, limit = n + 1 := ⟨limit - 1, by omega⟩
      exact .object hkeys fun m hm => ih m hm (Nat.le_of_succ_le_succ hle)

end TagFormula.Json
