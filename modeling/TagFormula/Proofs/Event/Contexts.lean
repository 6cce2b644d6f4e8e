import TagFormula.Proofs.Event.Entries
import TagFormula.Proofs.Event.Trail

/-!
# Contexts that can be written

A value can be written (`Json.Writable`) when no object has a key twice, when it is not too
deep, and when its integers are not too long. Numbers that are not finite do no harm, since
null is written in their place. An event whose context can be written has a line
(`LogEntry.hasLine_of_writable`).

The context of a session's event stays writable when something writable is added
(`Event.writable_sessionContext`), and when its strings are cut to length
(`Json.Writable.truncated`). Neither loses the id of the session, unless what is added has
another one or the id is long enough to be cut (`Event.lookup?_session_truncated`).
-/

namespace TagFormula

namespace Json

/-! ## Values that can be written -/

/-- A value that can be written: no object has a key twice, no integer is too long, and at most
so many lists and objects stand in each other. -/
inductive Writable : Nat → Json → Prop
  | null (depth : Nat) : Writable depth null
  | bool (depth : Nat) (b : Bool) : Writable depth (bool b)
  | integer (depth : Nat) {n : Int} (h : Literal.isLong n = false) : Writable depth (integer n)
  | double (depth : Nat) (x : Float) : Writable depth (double x)
  | string (depth : Nat) (s : JsonString) : Writable depth (string s)
  | array {depth : Nat} {xs : List Json} (h : ∀ j ∈ xs, Writable depth j) :
      Writable (depth + 1) (array xs)
  | object {depth : Nat} {ms : List (JsonString × Json)} (hkeys : (ms.map (·.1)).Nodup)
      (h : ∀ m ∈ ms, Writable depth m.2) : Writable (depth + 1) (object ms)

theorem writable_object_iff {depth : Nat} {ms : List (JsonString × Json)} :
    Writable (depth + 1) (object ms) ↔
      (ms.map (·.1)).Nodup ∧ ∀ m ∈ ms, Writable depth m.2 := by
  constructor
  · rintro (_ | _ | _ | _ | _ | _ | ⟨hkeys, h⟩)
    exact ⟨hkeys, h⟩
  · rintro ⟨hkeys, h⟩
    exact .object hkeys h

theorem itemsDepth_le {xs : List Json} {limit : Nat} (h : ∀ j ∈ xs, depth j ≤ limit) :
    itemsDepth xs ≤ limit := by
  induction xs with
  | nil => exact Nat.zero_le limit
  | cons j xs ih =>
      obtain ⟨hj, hxs⟩ := List.forall_mem_cons.1 h
      exact max_le hj (ih hxs)

theorem membersDepth_le {ms : List (JsonString × Json)} {limit : Nat}
    (h : ∀ m ∈ ms, depth m.2 ≤ limit) : membersDepth ms ≤ limit := by
  induction ms with
  | nil => exact Nat.zero_le limit
  | cons m ms ih =>
      obtain ⟨hm, hms⟩ := List.forall_mem_cons.1 h
      exact max_le hm (ih hms)

namespace Writable

variable {limit : Nat} {j : Json} {ms extra : List (JsonString × Json)}

theorem distinctKeys (h : Writable limit j) : DistinctKeys j := by
  induction h with
  | null => exact .null
  | bool _ b => exact .bool b
  | @integer _ n _ => exact .integer n
  | double _ x => exact .double x
  | string _ s => exact .string s
  | array _ ih => exact .array ih
  | object hkeys _ ih => exact .object hkeys ih

theorem depth_le (h : Writable limit j) : depth j ≤ limit := by
  induction h with
  | array _ ih =>
      rw [depth, Nat.add_comm]
      exact Nat.succ_le_succ (itemsDepth_le ih)
  | object _ _ ih =>
      rw [depth, Nat.add_comm]
      exact Nat.succ_le_succ (membersDepth_le ih)
  | _ => exact Nat.zero_le _

theorem hasLongInteger_strict (h : Writable limit j) : hasLongInteger j.strict = false := by
  induction h with
  | integer _ h => exact h
  | double _ x =>
      rw [strict, strictDouble]
      split <;> rfl
  | array _ ih =>
      rw [strict, strictItems_eq, hasLongInteger, itemsHaveLong_eq, List.any_map]
      exact List.any_eq_false.2 fun j hj => Bool.eq_false_iff.1 (ih j hj)
  | object _ _ ih =>
      rw [strict, strictMembers_eq, hasLongInteger, membersHaveLong_eq, List.any_map]
      exact List.any_eq_false.2 fun m hm => Bool.eq_false_iff.1 (ih m hm)
  | _ => rfl

end Writable

/-! ## Adding members -/

theorem mem_put {ms : List (JsonString × Json)} {key : JsonString} {value : Json}
    {m : JsonString × Json} (h : m ∈ put ms key value) : m ∈ ms ∨ m = (key, value) := by
  induction ms with
  | nil => exact .inr (List.mem_singleton.1 h)
  | cons n ms ih =>
      rw [put] at h
      split at h
      · next hkey =>
          rcases List.mem_cons.1 h with rfl | h
          · exact .inr (by rw [hkey])
          · exact .inl (List.mem_cons_of_mem _ h)
      · rcases List.mem_cons.1 h with rfl | h
        · exact .inl (List.mem_cons_self ..)
        · exact (ih h).imp_left (List.mem_cons_of_mem _)

theorem nodup_keys_put {ms : List (JsonString × Json)} (h : (ms.map (·.1)).Nodup)
    (key : JsonString) (value : Json) : ((put ms key value).map (·.1)).Nodup := by
  induction ms with
  | nil => exact List.nodup_singleton key
  | cons n ms ih =>
      rw [List.map_cons, List.nodup_cons] at h
      rw [put]
      split
      · exact List.nodup_cons.2 h
      · next hkey =>
          refine List.nodup_cons.2 ⟨fun hmem => ?_, ih h.2⟩
          obtain ⟨m, hm, heq⟩ := List.mem_map.1 hmem
          rcases mem_put hm with hm | rfl
          · exact h.1 (List.mem_map.2 ⟨m, hm, heq⟩)
          · exact hkey heq.symm

/-- An object that can be written may be added to, also under keys that it has. -/
theorem writable_putAll {limit : Nat} {ms extra : List (JsonString × Json)}
    (h : Writable (limit + 1) (object ms)) (hextra : ∀ m ∈ extra, Writable limit m.2) :
    Writable (limit + 1) (object (putAll ms extra)) := by
  induction extra generalizing ms with
  | nil => exact h
  | cons m extra ih =>
      obtain ⟨hm, hextra⟩ := List.forall_mem_cons.1 hextra
      obtain ⟨hkeys, hms⟩ := writable_object_iff.1 h
      rw [putAll, List.foldl_cons, ← putAll]
      refine ih (.object (nodup_keys_put hkeys m.1 m.2) fun n hn => ?_) hextra
      rcases mem_put hn with hn | rfl
      · exact hms n hn
      · exact hm

theorem lookup?_cons_self (key : JsonString) (value : Json) (ms : List (JsonString × Json)) :
    lookup? ((key, value) :: ms) key = some value := by
  simp [lookup?]

/-- A value stays under its key if no other is added under it. -/
theorem lookup?_putAll_of_same {ms extra : List (JsonString × Json)} {key : JsonString}
    {value : Json} (h : lookup? ms key = some value)
    (hsame : ∀ m ∈ extra, m.1 = key → m.2 = value) :
    lookup? (putAll ms extra) key = some value := by
  induction extra generalizing ms with
  | nil => exact h
  | cons m extra ih =>
      obtain ⟨hm, hextra⟩ := List.forall_mem_cons.1 hsame
      rw [putAll, List.foldl_cons, ← putAll]
      refine ih ?_ hextra
      by_cases hkey : m.1 = key
      · rw [hkey, hm hkey, lookup?_put_self]
      · rw [lookup?_put_of_ne ms m.2 (Ne.symm hkey), h]

end Json

/-! ## Cutting to length -/

namespace Truncation

theorem members_eq (ms : List (JsonString × Json)) :
    members ms = ms.map fun m => (m.1, value m.2) := by
  induction ms with
  | nil => rfl
  | cons m ms ih => rw [members, ih, List.map_cons]

theorem items_eq (xs : List Json) : items xs = xs.map item := by
  induction xs with
  | nil => rfl
  | cons j xs ih => rw [items, ih, List.map_cons]

end Truncation

/-- Cut to length a value can still be written, as a member and as an item. -/
theorem Json.Writable.truncated {limit : Nat} {j : Json} (h : Writable limit j) :
    Writable limit (Truncation.value j) ∧ Writable limit (Truncation.item j) := by
  induction h with
  | null depth => exact ⟨.null depth, .null depth⟩
  | bool depth b => exact ⟨.bool depth b, .bool depth b⟩
  | integer depth h => exact ⟨.integer depth h, .integer depth h⟩
  | double depth x => exact ⟨.double depth x, .double depth x⟩
  | string depth s => exact ⟨.string depth _, .string depth _⟩
  | array h ih =>
      -- As an item a list is left as it is.
      refine ⟨?_, .array h⟩
      rw [Truncation.value, Truncation.items_eq]
      exact .array (List.forall_mem_map.2 fun j hj => (ih j hj).2)
  | @object depth ms hkeys h ih =>
      have hmembers : Writable (depth + 1) (.object (Truncation.members ms)) := by
        refine .object (by rwa [Truncation.keys_members]) ?_
        rw [Truncation.members_eq]
        exact List.forall_mem_map.2 fun m hm => (ih m hm).1
      exact ⟨hmembers, hmembers⟩

/-! ## Events of sessions -/

namespace Event

variable {session : Text} {formula : Option Text} {extra : List (JsonString × Json)}

theorem lookup?_sessionContext
    (hown : ∀ m ∈ extra, m.1 = "session_id" → m.2 = .ofText session) :
    Json.lookup? (sessionContext session formula extra) "session_id" = some (.ofText session) :=
  Json.lookup?_putAll_of_same (Json.lookup?_cons_self ..) hown

/-- An id that is not cut is found. -/
theorem lookup?_session_truncated {e : Event}
    (h : Json.lookup? e.context "session_id" = some (.ofText session))
    (hlength : session.length ≤ Truncation.maxLength) :
    Json.lookup? e.truncated.context "session_id" = some (.ofText session) := by
  have hcut : Truncation.cutString (.ofText session) = .ofText session :=
    Truncation.cutString_of_length_le (by rwa [JsonString.length_ofText])
  rw [truncated, Truncation.lookup?_members, h, Option.map_some, Json.ofText, Truncation.value, hcut]

theorem writable_sessionContext {limit : Nat} (session : Text) (formula : Option Text)
    (h : Json.Writable (limit + 1) (.object extra)) :
    Json.Writable (limit + 1) (.object (sessionContext session formula extra)) := by
  refine Json.writable_putAll ?_ (Json.writable_object_iff.1 h).2
  cases formula with
  | none =>
      exact .object (List.nodup_singleton _) (List.forall_mem_singleton.2 (.string limit _))
  | some t =>
      refine .object (by simp [JsonString.ofText_inj]) (List.forall_mem_cons.2 ⟨.string limit _, ?_⟩)
      exact List.forall_mem_singleton.2 (.string limit _)

end Event

theorem LogEntry.hasLine_of_writable {w : LogEntry}
    (h : Json.Writable (Event.maxDepth + 1) (.object w.event.context)) : w.HasLine := by
  have hdepth : Json.membersDepth w.event.context ≤ Event.maxDepth := by
    have := h.depth_le
    rw [Json.depth] at this
    omega
  have hlong : (w.event.record w.time).hasLongInteger = false := by
    rw [Event.record_eq, Json.hasLongInteger, Json.membersHaveLong_eq, List.any_eq_false]
    refine fun m hm => Bool.eq_false_iff.1 ?_
    refine Event.forall_mem_recordMembers (P := fun j => j.hasLongInteger = false) w.time rfl ?_
      (fun _ => rfl) h.hasLongInteger_strict m hm
    decide +kernel
  rw [HasLine, EventLog.line, Event.toJson, if_neg (Nat.not_lt.2 hdepth)]
  simp only [hlong]
  rfl

end TagFormula
