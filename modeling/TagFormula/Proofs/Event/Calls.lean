import TagFormula.Proofs.Event.Truncation

/-!
# Room for the calls

A context is cut if and only if there is room for the calls that stand in each other, and what is cut
does not depend on how much room there is beyond them (`Truncation.context?_eq`). A context that is
cut takes as many calls as before (`Truncation.CallStack.calls_members`), and the calls for a context
are no more than twice its depth and two (`Truncation.CallStack.calls_le`).
-/

namespace TagFormula.Truncation

variable {perList : Nat}

/-! ## How many calls -/

theorem membersCalls_le_iff {ms : List (JsonString × Json)} {n : Nat} :
    membersCalls perList ms ≤ n ↔ ∀ m ∈ ms, valueCalls perList m.2 ≤ n := by
  induction ms with
  | nil => exact ⟨fun _ => List.forall_mem_nil _, fun _ => Nat.zero_le n⟩
  | cons m ms ih => rw [membersCalls, Nat.max_le, ih, List.forall_mem_cons]

theorem itemsCalls_le_iff {xs : List Json} {n : Nat} :
    itemsCalls perList xs ≤ n ↔ ∀ j ∈ xs, itemCalls perList j ≤ n := by
  induction xs with
  | nil => exact ⟨fun _ => List.forall_mem_nil _, fun _ => Nat.zero_le n⟩
  | cons j xs ih => rw [itemsCalls, Nat.max_le, ih, List.forall_mem_cons]

theorem membersCalls_map {f : Json → Json} {ms : List (JsonString × Json)}
    (h : ∀ m ∈ ms, valueCalls perList (f m.2) = valueCalls perList m.2) :
    membersCalls perList (ms.map fun m => (m.1, f m.2)) = membersCalls perList ms := by
  induction ms with
  | nil => rfl
  | cons m ms ih =>
      obtain ⟨hm, hms⟩ := List.forall_mem_cons.1 h
      rw [List.map_cons, membersCalls, membersCalls, hm, ih hms]

theorem itemsCalls_map {f : Json → Json} {xs : List Json}
    (h : ∀ j ∈ xs, itemCalls perList (f j) = itemCalls perList j) :
    itemsCalls perList (xs.map f) = itemsCalls perList xs := by
  induction xs with
  | nil => rfl
  | cons j xs ih =>
      obtain ⟨hj, hxs⟩ := List.forall_mem_cons.1 h
      rw [List.map_cons, itemsCalls, itemsCalls, hj, ih hxs]

/-- Cut to length a value takes as many calls as before. -/
theorem calls_value_item (j : Json) :
    valueCalls perList (value j) = valueCalls perList j ∧
      itemCalls perList (item j) = itemCalls perList j := by
  induction j using Json.induction_parts with
  | null => exact ⟨rfl, rfl⟩
  | bool b => exact ⟨rfl, rfl⟩
  | integer n => exact ⟨rfl, rfl⟩
  | double x => exact ⟨rfl, rfl⟩
  | string s => exact ⟨rfl, rfl⟩
  | array xs ih =>
      refine ⟨?_, rfl⟩
      rw [value, valueCalls, valueCalls, items_eq, itemsCalls_map fun j hj => (ih j hj).2]
  | object ms ih =>
      have hmembers : membersCalls perList (members ms) = membersCalls perList ms := by
        rw [members_eq, membersCalls_map fun m hm => (ih m hm).1]
      rw [value, item, valueCalls, valueCalls, itemCalls, itemCalls, hmembers]
      exact ⟨rfl, rfl⟩

/-- A value of some depth takes at most twice as many calls, and one. -/
theorem calls_le_depth (hlist : perList ≤ 1) (j : Json) :
    valueCalls perList j ≤ 2 * j.depth + 1 ∧ itemCalls perList j ≤ 2 * j.depth + 1 := by
  induction j using Json.induction_parts with
  | null => exact ⟨Nat.le_refl 1, Nat.le_refl 1⟩
  | bool b => exact ⟨Nat.le_refl 1, Nat.le_refl 1⟩
  | integer n => exact ⟨Nat.le_refl 1, Nat.le_refl 1⟩
  | double x => exact ⟨Nat.le_refl 1, Nat.le_refl 1⟩
  | string s => exact ⟨Nat.le_refl 1, Nat.le_refl 1⟩
  | array xs ih =>
      have hitems : itemsCalls perList xs ≤ 2 * Json.itemsDepth xs + 1 := by
        refine itemsCalls_le_iff.2 fun j hj => (ih j hj).2.trans ?_
        have := Json.depth_le_itemsDepth hj
        omega
      simp only [valueCalls, itemCalls, Json.depth]
      omega
  | object ms ih =>
      have hmembers : membersCalls perList ms ≤ 2 * Json.membersDepth ms + 1 := by
        refine membersCalls_le_iff.2 fun m hm => (ih m hm).1.trans ?_
        have := Json.depth_le_membersDepth hm
        omega
      simp only [valueCalls, itemCalls, Json.depth]
      omega

/-! ## What is cut -/

/-- The members are cut if all of their values are. -/
theorem membersWithin_eq {room : Nat} {ms : List (JsonString × Json)}
    (h : ∀ m ∈ ms, valueWithin perList room m.2 =
      if valueCalls perList m.2 ≤ room then some (value m.2) else none) :
    membersWithin perList room ms =
      if membersCalls perList ms ≤ room then some (members ms) else none := by
  induction ms with
  | nil => rw [membersWithin, membersCalls, if_pos (Nat.zero_le room), members]
  | cons m ms ih =>
      obtain ⟨hm, hms⟩ := List.forall_mem_cons.1 h
      rw [membersWithin, hm, ih hms, membersCalls, members]
      by_cases hfirst : valueCalls perList m.2 ≤ room
      · by_cases hlater : membersCalls perList ms ≤ room <;> simp [hfirst, hlater]
      · simp [hfirst]

/-- The items are cut if each of them is. -/
theorem itemsWithin_eq {room : Nat} {xs : List Json}
    (h : ∀ j ∈ xs, itemWithin perList room j =
      if itemCalls perList j ≤ room then some (item j) else none) :
    itemsWithin perList room xs =
      if itemsCalls perList xs ≤ room then some (items xs) else none := by
  induction xs with
  | nil => rw [itemsWithin, itemsCalls, if_pos (Nat.zero_le room), items]
  | cons j xs ih =>
      obtain ⟨hj, hxs⟩ := List.forall_mem_cons.1 h
      rw [itemsWithin, hj, ih hxs, itemsCalls, items]
      by_cases hfirst : itemCalls perList j ≤ room
      · by_cases hlater : itemsCalls perList xs ≤ room <;> simp [hfirst, hlater]
      · simp [hfirst]

/-- What takes one call. -/
theorem guard_one (room : Nat) (j : Json) :
    (do guard (1 ≤ room); return j : Option Json) = if 1 ≤ room then some j else none := by
  by_cases hroom : 1 ≤ room <;> simp [hroom]

/-- What takes some calls for itself and others for its parts. -/
theorem guard_cost {α β : Type} {cost rest room : Nat} {parts : Option α} {x : α}
    (h : parts = if rest ≤ room - cost then some x else none) (f : α → β) :
    (do guard (cost ≤ room); return f (← parts) : Option β) =
      if cost + rest ≤ room then some (f x) else none := by
  rw [h]
  by_cases hcost : cost ≤ room
  · have hrest : rest ≤ room - cost ↔ cost + rest ≤ room := by omega
    by_cases hroom : cost + rest ≤ room <;> simp [hcost, hrest, hroom]
  · simp [hcost, show ¬ cost + rest ≤ room by omega]

/-- A value is cut, as a member and as an item, if there is room for its calls. -/
theorem within_value_item (j : Json) (room : Nat) :
    valueWithin perList room j =
        (if valueCalls perList j ≤ room then some (value j) else none) ∧
      itemWithin perList room j =
        if itemCalls perList j ≤ room then some (item j) else none := by
  -- By induction on the value, with less room for its parts.
  induction j using Json.induction_parts generalizing room with
  | null => exact ⟨guard_one room _, guard_one room _⟩
  | bool b => exact ⟨guard_one room _, guard_one room _⟩
  | integer n => exact ⟨guard_one room _, guard_one room _⟩
  | double x => exact ⟨guard_one room _, guard_one room _⟩
  | string s => exact ⟨guard_one room _, guard_one room _⟩
  | array xs ih =>
      have hitems := itemsWithin_eq fun j hj => (ih j hj (room - perList)).2
      exact ⟨guard_cost hitems Json.array, guard_one room _⟩
  | object ms ih =>
      have hmembers (room : Nat) := membersWithin_eq fun m hm => (ih m hm room).1
      exact ⟨guard_cost (hmembers (room - 1)) Json.object,
        guard_cost (hmembers (room - 2)) Json.object⟩

/-- A context is cut if and only if there is room for its calls. -/
theorem context?_eq (stack : CallStack) (ms : List (JsonString × Json)) :
    context? stack ms = if stack.calls ms ≤ stack.room then some (members ms) else none := by
  have hmembers : membersWithin stack.perList (stack.room - 1) ms =
      if membersCalls stack.perList ms ≤ stack.room - 1 then some (members ms) else none :=
    membersWithin_eq fun m _ => (within_value_item m.2 _).1
  rw [context?, ← bind_pure (membersWithin stack.perList (stack.room - 1) ms)]
  exact guard_cost hmembers id

namespace CallStack

/-- A context that is cut to length takes as many calls as before. -/
theorem calls_members (stack : CallStack) (ms : List (JsonString × Json)) :
    stack.calls (members ms) = stack.calls ms := by
  rw [calls, calls, members_eq, membersCalls_map fun m _ => (calls_value_item m.2).1]

/-- The depth of a context bounds its calls. -/
theorem calls_le (stack : CallStack) (ms : List (JsonString × Json)) :
    stack.calls ms ≤ 2 * Json.membersDepth ms + 2 := by
  have hlist : stack.perList ≤ 1 := Bool.toNat_le _
  have hmembers : membersCalls stack.perList ms ≤ 2 * Json.membersDepth ms + 1 := by
    refine membersCalls_le_iff.2 fun m hm => ((calls_le_depth hlist m.2).1).trans ?_
    have := Json.depth_le_membersDepth hm
    omega
  rw [calls]
  omega

end CallStack

end TagFormula.Truncation
