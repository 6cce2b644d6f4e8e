import TagFormula.Proofs.Event.Entries

/-!
# Which events a filter keeps

A filter asks for a level, a kind or a session, or for some of these. It reads them off
records, and of the records of events it keeps those of the events that have what is asked
for (`select_records`).
-/

namespace TagFormula

namespace EventFilter

/-- An event is wanted: it has the level, the kind and the session that are asked for. -/
def Matches (f : EventFilter) (e : Event) : Prop :=
  (f.level ≠ [] → e.level.name.toList = f.level) ∧ (f.kind ≠ [] → e.kind.name.toList = f.kind) ∧
    (f.session ≠ [] → Json.lookup? e.context "session_id" = some (.ofText f.session))

theorem holds_iff {key : JsonString} {t : Text} {ms : List (JsonString × Json)} :
    holds key t ms = true ↔ Json.lookup? ms key = some (.ofText t) := by
  unfold holds
  split
  · next s heq => simp [heq, Json.ofText]
  · next hne =>
      exact ⟨fun h => absurd h Bool.false_ne_true, fun h => absurd h (hne (.ofText t))⟩

instance (key : JsonString) (t : Text) (ms : List (JsonString × Json)) :
    Decidable (Json.lookup? ms key = some (.ofText t)) :=
  decidable_of_iff _ holds_iff

theorem holds_eq (key : JsonString) (t : Text) (ms : List (JsonString × Json)) :
    holds key t ms = decide (Json.lookup? ms key = some (.ofText t)) :=
  Bool.eq_iff_iff.2 (holds_iff.trans decide_eq_true_iff.symm)

theorem test_of_lookup? {key : JsonString} {t u : Text} {j : Json} {ms : List (JsonString × Json)}
    (hj : j = .object ms) (h : Json.lookup? ms key = some (.ofText u)) :
    test key t j = .ok (decide (u = t)) := by
  rw [hj, test, holds_eq]
  exact congrArg _ (decide_eq_decide.2 (by simp [h, Json.ofText]))

instance (f : EventFilter) : DecidablePred f.Matches :=
  fun _ => inferInstanceAs (Decidable (_ ∧ _ ∧ _))

theorem exists_members_sorted (w : LogEntry) :
    ∃ ms, w.record.sorted = .object ms ∧
      Json.lookup? ms "level" = some (.ofText w.event.level.name.toList) ∧
      Json.lookup? ms "event_type" = some (.ofText w.event.kind.name.toList) ∧
      Json.lookup? ms "context" = some (Json.object w.event.context).strict.sorted := by
  have hnodup := w.event.nodup_recordMembers w.time
  have hfind (key : JsonString) (j : Json) (h : (key, j) ∈ w.event.recordMembers w.time) :
      Json.lookup? (Json.sortMembers (Json.sortedMembers (w.event.recordMembers w.time))) key =
        some j.sorted := by
    rw [Json.lookup?_sortMembers hnodup, (Json.lookup?_eq_some_iff hnodup).2 h]
    rfl
  refine ⟨Json.sortMembers (Json.sortedMembers (w.event.recordMembers w.time)), rfl,
    hfind "level" (.string w.event.level.name) (.tail _ (.tail _ (.head _))),
    hfind "event_type" (.string w.event.kind.name) (.tail _ (.tail _ (.tail _ (.head _)))),
    hfind "context" (Json.object w.event.context).strict
      (.tail _ (.tail _ (.tail _ (.tail _ (.head _)))))⟩

/-- In an object that has been read strings are found as they were. -/
theorem lookup?_sorted_strict {ms : List (JsonString × Json)} (h : (ms.map (·.1)).Nodup)
    (key : JsonString) (s : JsonString) :
    ∃ ns, (Json.object ms).strict.sorted = .object ns ∧
      (Json.lookup? ns key = some (.string s) ↔ Json.lookup? ms key = some (.string s)) := by
  refine ⟨_, rfl, ?_⟩
  have hsorted (j : Json) : j.sorted = .string s ↔ j = .string s := by
    cases j <;> simp [Json.sorted]
  rw [Json.lookup?_sortMembers (by rwa [Json.keys_strictMembers]), Option.map_eq_some_iff,
    ← Json.lookup?_strictMembers_string]
  simp [hsorted]

theorem keep_map {α : Type} {test : Json → Except ReadError Bool} {g : α → Json} {p : α → Bool}
    (xs : List α) (h : ∀ x ∈ xs, test (g x) = .ok (p x)) :
    keep test (xs.map g) = .ok ((xs.filter p).map g) := by
  induction xs with
  | nil => rfl
  | cons x xs ih =>
      obtain ⟨hx, hxs⟩ := List.forall_mem_cons.1 h
      rw [List.map_cons, keep, hx, ih hxs, List.filter_cons]
      cases p x <;> rfl

theorem keepIf_map {α : Type} {wanted : Text} {test : Text → Json → Except ReadError Bool}
    {g : α → Json} {p : α → Prop} [DecidablePred p] (xs : List α)
    (h : ∀ x ∈ xs, test wanted (g x) = .ok (decide (p x))) :
    keepIf wanted test (xs.map g) = .ok ((xs.filter fun x => wanted ≠ [] → p x).map g) := by
  unfold keepIf
  by_cases hwanted : wanted = []
  · simp [hwanted]
  · rw [if_neg (by simpa using hwanted), keep_map xs h]
    simp [hwanted]

/-- If the tests answer for every value, those values are kept for which the answers to what is asked
are yes. -/
theorem select_map {α : Type} {g : α → Json} {p q r : α → Prop} [DecidablePred p] [DecidablePred q]
    [DecidablePred r] (f : EventFilter) {xs : List α}
    (hlevel : ∀ x ∈ xs, test "level" f.level (g x) = .ok (decide (p x)))
    (hkind : ∀ x ∈ xs, test "event_type" f.kind (g x) = .ok (decide (q x)))
    (hsession : ∀ x ∈ xs, testSession f.session (g x) = .ok (decide (r x))) :
    f.select (xs.map g) =
      .ok ((xs.filter fun x =>
        (f.level ≠ [] → p x) ∧ (f.kind ≠ [] → q x) ∧ (f.session ≠ [] → r x)).map g) := by
  have hlater {P : α → Prop} {b : α → Bool} (h : ∀ x ∈ xs, P x) : ∀ x ∈ xs.filter b, P x :=
    fun x hx => h x (List.mem_of_mem_filter hx)
  simp only [select, bind, Except.bind, keepIf_map xs hlevel, keepIf_map _ (hlater hkind),
    keepIf_map _ (hlater hsession), List.filter_filter]
  congr 2
  refine List.filter_congr fun x _ => ?_
  rw [← Bool.decide_and, ← Bool.decide_and]
  exact decide_eq_decide.2 (by tauto)

/-- Of the records of events those of the wanted ones are kept. -/
theorem select_records (f : EventFilter) (ws : List LogEntry)
    (hkeys : ∀ w ∈ ws, w.event.HasDistinctKeys) :
    f.select (ws.map fun w => w.record.sorted) =
      .ok ((ws.filter fun w => f.Matches w.event).map fun w => w.record.sorted) := by
  refine select_map f (fun w _ => ?_) (fun w _ => ?_) fun w hw => ?_
  · obtain ⟨ms, heq, hfind, -, -⟩ := exists_members_sorted w
    exact test_of_lookup? heq hfind
  · obtain ⟨ms, heq, -, hfind, -⟩ := exists_members_sorted w
    exact test_of_lookup? heq hfind
  · obtain ⟨ms, heq, -, -, hfind⟩ := exists_members_sorted w
    cases hkeys w hw with
    | object hnodup _ =>
        obtain ⟨ns, hsorted, hiff⟩ := lookup?_sorted_strict hnodup "session_id" (.ofText f.session)
        rw [heq, testSession, hfind, hsorted]
        simp only [test, holds_eq]
        exact congrArg _ (decide_eq_decide.2 hiff)

end EventFilter

end TagFormula
