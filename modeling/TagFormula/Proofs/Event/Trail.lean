import Mathlib.Data.Finset.Basic
import Mathlib.Data.List.Induction
import TagFormula.Event.Truncation

/-!
# The trail of the tags

The events of a session tell which tags have been put in and taken out. `Trail.live` reads
off the ids of the tags that are there after the events, starting without tags; it knows
nothing of the session. Events that are not about tags are passed over, and a new beginning
leaves no tag.

A trail is `Faithful` to a set of ids when it ends with these, takes out only what is there, and
never puts the same id in twice. It grows event by event (`Faithful.inserted` and its
companions). Cutting the strings of the events to length, as is done before they are written,
does not change what they tell.
-/

namespace TagFormula

/-! ## What an event tells -/

namespace Json

theorem lookup?_putAll_of_ne {members extra : List (JsonString × Json)} {key : JsonString}
    (h : ∀ m ∈ extra, key ≠ m.1) : lookup? (putAll members extra) key = lookup? members key := by
  induction extra generalizing members with
  | nil => rfl
  | cons m extra ih =>
      rw [putAll, List.foldl_cons, ← putAll, ih fun n hn => h n (List.mem_cons_of_mem _ hn)]
      exact lookup?_put_of_ne members m.2 (h m (List.mem_cons_self ..))

/-- What is put in first is found, unless its key comes again. -/
theorem lookup?_putAll_cons {members extra : List (JsonString × Json)} {key : JsonString}
    {value : Json} (h : ∀ m ∈ extra, key ≠ m.1) :
    lookup? (putAll members ((key, value) :: extra)) key = some value := by
  rw [putAll, List.foldl_cons, ← putAll, lookup?_putAll_of_ne h, lookup?_put_self]

end Json

namespace Event

/-- The id of the tag that an event is about. -/
def tagId? (e : Event) : Option Int :=
  match Json.lookup? e.context "tag_id" with
  | some (.integer id) => some id
  | _ => none

/-- An event about a tag, to which other circumstances are added. -/
theorem tagId?_ofSession {kind : EventKind} {level : EventLevel} {message session : Text}
    {formula : Option Text} {errorCode : Option String} {id : Int}
    {extra : List (JsonString × Json)} (h : ∀ m ∈ extra, "tag_id" ≠ m.1) :
    (ofSession kind level message session formula errorCode
      (("tag_id", .integer id) :: extra)).tagId? = some id := by
  have hlookup : Json.lookup? (ofSession kind level message session formula errorCode
      (("tag_id", .integer id) :: extra)).context "tag_id" = some (.integer id) :=
    Json.lookup?_putAll_cons h
  rw [tagId?, hlookup]

end Event

namespace Truncation

theorem lookup?_members (ms : List (JsonString × Json)) (key : JsonString) :
    Json.lookup? (members ms) key = (Json.lookup? ms key).map value := by
  induction ms with
  | nil => rfl
  | cons m ms ih =>
      obtain ⟨k, j⟩ := m
      by_cases hk : k = key
      · simp [members, Json.lookup?, hk]
      · simpa [members, Json.lookup?, hk] using ih

end Truncation

/-- Cutting strings to length leaves ids alone. -/
theorem Event.tagId?_truncated (e : Event) : e.truncated.tagId? = e.tagId? := by
  rw [tagId?, tagId?, truncated, Truncation.lookup?_members]
  cases Json.lookup? e.context "tag_id" with
  | none => rfl
  | some j => cases j <;> rfl

/-! ## Replaying events -/

namespace Trail

/-- The ids of the tags that are there after an event. -/
def step (live : Finset Int) (e : Event) : Finset Int :=
  match e.kind, e.tagId? with
  | .tagInserted, some id => insert id live
  | .tagRemoved, some id => live.erase id
  | .sessionReset, _ => ∅
  | _, _ => live

/-- The ids of the tags that are there after events, the first of which finds no tag. -/
def live (events : List Event) : Finset Int :=
  events.foldl step ∅

/-- The ids that have been put in, in the order of the events. -/
def inserted (events : List Event) : List Int :=
  (events.filter (·.kind = .tagInserted)).filterMap Event.tagId?

/-- Events tell nothing of the tags. -/
def Quiet (events : List Event) : Prop :=
  ∀ e ∈ events, e.kind ≠ .tagInserted ∧ e.kind ≠ .tagRemoved ∧ e.kind ≠ .sessionReset

theorem live_concat (events : List Event) (e : Event) :
    live (events ++ [e]) = step (live events) e := by
  rw [live, List.foldl_concat]
  rfl

theorem inserted_concat (events : List Event) (e : Event) :
    inserted (events ++ [e]) =
      inserted events ++ if e.kind = .tagInserted then e.tagId?.toList else [] := by
  rw [inserted, List.filter_append, List.filterMap_append]
  by_cases h : e.kind = .tagInserted
  · cases hid : e.tagId? <;> simp [inserted, h, hid]
  · simp [inserted, h]

theorem step_quiet {e : Event} (h₀ : e.kind ≠ .tagInserted) (h₁ : e.kind ≠ .tagRemoved)
    (h₂ : e.kind ≠ .sessionReset) (ids : Finset Int) : step ids e = ids := by
  unfold step
  split <;> simp_all

/-! ## Faithful trails -/

/-- The trail ends with these ids, takes out only ids that are there, and puts no id in
twice. -/
structure Faithful (events : List Event) (ids : Finset Int) : Prop where
  live_eq : live events = ids
  removed_live : ∀ before e rest, events = before ++ e :: rest → e.kind = .tagRemoved →
    ∃ id ∈ live before, e.tagId? = some id
  inserted_named : ∀ e ∈ events, e.kind = .tagInserted → ∃ id, e.tagId? = some id
  inserted_nodup : (inserted events).Nodup

namespace Faithful

variable {events : List Event} {ids : Finset Int}

theorem nil : Faithful [] ∅ where
  live_eq := rfl
  removed_live := by simp
  inserted_named := by simp
  inserted_nodup := List.nodup_nil

/-- One more event: what it takes out has to be there, and what it puts in has to be new. -/
theorem concat (h : Faithful events ids) {e : Event}
    (hremoved : e.kind = .tagRemoved → ∃ id ∈ ids, e.tagId? = some id)
    (hinserted : e.kind = .tagInserted → ∃ id, e.tagId? = some id ∧ id ∉ inserted events) :
    Faithful (events ++ [e]) (step ids e) where
  live_eq := by rw [live_concat, h.live_eq]
  removed_live before e' rest heq hkind := by
    rcases List.eq_nil_or_concat rest with rfl | ⟨rest', last, rfl⟩
    · obtain ⟨rfl, rfl⟩ := List.append_singleton_inj.1 heq
      rw [h.live_eq]
      exact hremoved hkind
    · have heq' : events ++ [e] = (before ++ e' :: rest') ++ [last] := by simpa using heq
      exact h.removed_live before e' rest' (List.append_singleton_inj.1 heq').1 hkind
  inserted_named e' he hkind := by
    rcases List.mem_append.1 he with he | he
    · exact h.inserted_named e' he hkind
    · rw [List.mem_singleton.1 he] at hkind ⊢
      exact (hinserted hkind).imp fun _ hid => hid.1
  inserted_nodup := by
    rw [inserted_concat]
    split
    · next hkind =>
        obtain ⟨id, hid, hnew⟩ := hinserted hkind
        rw [hid, Option.toList_some]
        refine List.nodup_append'.2 ⟨h.inserted_nodup, List.nodup_singleton id, ?_⟩
        exact List.disjoint_singleton.2 hnew
    · rw [List.append_nil]
      exact h.inserted_nodup

theorem quiet (h : Faithful events ids) {more : List Event} (hmore : Quiet more) :
    Faithful (events ++ more) ids ∧ inserted (events ++ more) = inserted events := by
  induction more using List.reverseRecOn with
  | nil => simpa using h
  | append_singleton more e ih =>
      obtain ⟨h', hsame⟩ := ih fun f hf => hmore f (List.mem_append_left _ hf)
      obtain ⟨h₀, h₁, h₂⟩ := hmore e (List.mem_append_right _ (List.mem_singleton_self e))
      have hconcat := h'.concat (e := e) (absurd · h₁) (absurd · h₀)
      rw [step_quiet h₀ h₁ h₂] at hconcat
      rw [← List.append_assoc, inserted_concat, if_neg h₀, List.append_nil]
      exact ⟨hconcat, hsame⟩

/-- Cutting the strings of the events to length leaves the trail as it is. -/
theorem truncated (h : Faithful events ids) : Faithful (events.map Event.truncated) ids := by
  have hstep : ∀ (live : Finset Int) (e : Event), step live e.truncated = step live e := by
    intro live e
    rw [step, step, Event.kind_truncated, Event.tagId?_truncated]
  have hlive (events : List Event) : live (events.map Event.truncated) = live events := by
    rw [live, List.foldl_map]
    simp only [hstep]
    rfl
  have hinserted : inserted (events.map Event.truncated) = inserted events := by
    rw [inserted, List.filter_map, List.filterMap_map]
    simp only [Function.comp_def, Event.kind_truncated, Event.tagId?_truncated]
    rfl
  refine ⟨(hlive events).trans h.live_eq, ?_, ?_, hinserted ▸ h.inserted_nodup⟩
  · intro before e rest heq hkind
    obtain ⟨before', tail, rfl, rfl, htail⟩ := List.map_eq_append_iff.1 heq
    obtain ⟨e', rest', rfl, rfl, rfl⟩ := List.map_eq_cons_iff.1 htail
    obtain ⟨id, hid, htag⟩ := h.removed_live before' e' rest' rfl hkind
    exact ⟨id, by rwa [hlive], (Event.tagId?_truncated e').trans htag⟩
  · intro e he hkind
    obtain ⟨e', he', rfl⟩ := List.mem_map.1 he
    obtain ⟨id, htag⟩ := h.inserted_named e' he' hkind
    exact ⟨id, (Event.tagId?_truncated e').trans htag⟩

end Faithful

end Trail

end TagFormula
