import Mathlib.Data.List.Chain
import Mathlib.Data.List.Sort
import TagFormula.Buffer.Basic

/-!
# What the check decides

The check of a buffer goes through its tags in the order of their positions and compares each with
the one before it. This is enough: a tag does not end before it starts, so what holds between
neighbours holds between any two (`checkTags_eq_ok_iff`). And names that are not empty make it
possible to go by the order of positions, whatever the order in which the tags are kept: of two
tags that share no offset, the one that starts first ends before the other starts
(`pairwise_sortedTags_iff`).

So a buffer that passes is one whose parts fit together, and no such buffer is turned away
(`check_eq_ok_iff`).
-/

namespace TagFormula

namespace Tag

/-- One tag ends before the other starts. -/
def Before (t u : Tag) : Prop :=
  t.stop ≤ u.position

instance : Trans Before Before Before where
  trans {t u v} htu huv := by
    have := u.position_le_stop
    rw [Before] at htu huv ⊢
    omega

/-- No offset lies in the spans of both tags. -/
def Apart (t u : Tag) : Prop :=
  ∀ p, ¬ ((t.position ≤ p ∧ p < t.stop) ∧ u.position ≤ p ∧ p < u.stop)

/-- A tag lies in a text, and there the text holds its name. -/
structure Fits (text : Text) (t : Tag) : Prop where
  position_nonneg : 0 ≤ t.position
  stop_le : t.stop ≤ text.length
  span_eq : Slice.between text t.position t.stop = t.name

variable {t u : Tag}

theorem Apart.symm (h : Apart t u) : Apart u t :=
  fun p hp => h p hp.symm

theorem apart_iff (ht : t.name ≠ []) (hu : u.name ≠ []) :
    Apart t u ↔ t.stop ≤ u.position ∨ u.stop ≤ t.position := by
  have ht' := position_lt_stop ht
  have hu' := position_lt_stop hu
  constructor
  · intro h
    by_contra hshared
    -- The later of the two starts would be shared.
    rcases Int.le_total t.position u.position with hle | hle
    · exact h u.position (by omega)
    · exact h t.position (by omega)
  · rintro h p hp
    omega

/-- Of two tags in the order of their positions that share no offset, the first ends before the
second starts. -/
theorem before_iff_apart (ht : t.name ≠ []) (hu : u.name ≠ []) (hle : t.position ≤ u.position) :
    Before t u ↔ Apart t u := by
  have hu' := position_lt_stop hu
  rw [apart_iff ht hu, Before]
  omega

theorem pairwise_ascending (tags : List Tag) :
    (ascending tags).Pairwise fun t u => t.position ≤ u.position :=
  List.pairwise_mergeSort' (Order.Preimage position (· ≤ ·)) tags

end Tag

namespace Buffer

/-- A tag passes the check when it fits and the one before it ends before it. -/
theorem checkTags_cons_eq_ok_iff {text : Text} {previous : Option Tag} {t : Tag} {tags : List Tag} :
    checkTags text previous (t :: tags) = .ok () ↔
      t.Fits text ∧ (∀ p ∈ previous, p.Before t) ∧ checkTags text (some t) tags = .ok () := by
  by_cases hrange : t.position < 0 ∨ (text.length : Int) < t.stop
  · have hfits : ¬ t.Fits text := fun h => by
      have := h.position_nonneg
      have := h.stop_le
      omega
    simp [checkTags, hrange, hfits]
  by_cases hspan : Slice.between text t.position t.stop = t.name
  · have hfits : t.Fits text := ⟨by omega, by omega, hspan⟩
    cases previous with
    | none => simp [checkTags, hrange, hspan, hfits]
    | some p =>
        by_cases hlt : t.position < p.stop
        · have hbefore : ¬ p.Before t := Int.not_le.2 hlt
          simp [checkTags, hrange, hspan, hlt, hbefore]
        · have hbefore : p.Before t := Int.not_lt.1 hlt
          simp [checkTags, hrange, hspan, hlt, hfits, hbefore]
  · have hfits : ¬ t.Fits text := fun h => hspan h.span_eq
    simp [checkTags, hrange, hspan, hfits]

/-- Tags pass the check one after the other when each fits and ends before the next. -/
theorem checkTags_eq_ok_iff {text : Text} {previous : Option Tag} {tags : List Tag} :
    checkTags text previous tags = .ok () ↔
      (∀ t ∈ tags, t.Fits text) ∧ (previous.toList ++ tags).IsChain Tag.Before := by
  induction tags generalizing previous with
  | nil => cases previous <;> simp [checkTags]
  | cons t tags ih =>
      rw [checkTags_cons_eq_ok_iff, ih, List.forall_mem_cons]
      cases previous with
      | none => simp [and_assoc]
      | some p =>
          simp only [Option.mem_some_iff, forall_eq', Option.toList_some, List.singleton_append,
            List.isChain_cons_cons]
          tauto

/-- No two tags share an offset when, by position, each ends before all that follow. -/
theorem pairwise_sortedTags_iff {b : Buffer} (hnames : ∀ t ∈ b.tags, t.name ≠ []) :
    b.sortedTags.Pairwise Tag.Before ↔ b.tags.Pairwise Tag.Apart := by
  have hperm : b.sortedTags.Perm b.tags := List.mergeSort_perm _ _
  have hnames' : ∀ t ∈ b.sortedTags, t.name ≠ [] := fun t ht => hnames t (hperm.mem_iff.1 ht)
  have hsorted : b.sortedTags.Pairwise fun t u => t.position ≤ u.position :=
    Tag.pairwise_ascending b.tags
  rw [← hperm.pairwise_iff Tag.Apart.symm]
  constructor
  · intro h
    refine (h.and hsorted).imp_of_mem fun ht hu hpair => ?_
    exact (Tag.before_iff_apart (hnames' _ ht) (hnames' _ hu) hpair.2).1 hpair.1
  · intro h
    refine (h.and hsorted).imp_of_mem fun ht hu hpair => ?_
    exact (Tag.before_iff_apart (hnames' _ ht) (hnames' _ hu) hpair.2).2 hpair.1

/-- The check asks for the cursor, the tags and the active tag. -/
theorem check_eq_ok_iff_checkTags {b : Buffer} :
    b.check = .ok () ↔ (0 ≤ b.cursor ∧ b.cursor ≤ b.length) ∧
      checkTags b.text none b.sortedTags = .ok () ∧ ∀ id, b.active = some id → id ∈ b.ids := by
  rw [check]
  split
  · next hcursor =>
      have hcursor' : ¬ (0 ≤ b.cursor ∧ b.cursor ≤ b.length) := by omega
      simp [hcursor']
  next hcursor =>
  have hcursor' : 0 ≤ b.cursor ∧ b.cursor ≤ b.length := by omega
  cases htags : checkTags b.text none b.sortedTags with
  | error fault => simp
  | ok _ =>
      cases hactive : b.active with
      | none => simp [hcursor']
      | some id => simp [hcursor', ← hasId_iff]

/-- A buffer passes the check just when its cursor lies in the text, every tag lies in the text
and holds its name there, no two tags share an offset, and the active tag is there. -/
theorem check_eq_ok_iff {b : Buffer} (hnames : ∀ t ∈ b.tags, t.name ≠ []) :
    b.check = .ok () ↔ (0 ≤ b.cursor ∧ b.cursor ≤ b.length) ∧ (∀ t ∈ b.tags, t.Fits b.text) ∧
      b.tags.Pairwise Tag.Apart ∧ ∀ id, b.active = some id → id ∈ b.ids := by
  have hmem : ∀ t, t ∈ b.sortedTags ↔ t ∈ b.tags := fun t => List.mem_mergeSort
  rw [check_eq_ok_iff_checkTags, checkTags_eq_ok_iff, Option.toList_none, List.nil_append,
    List.isChain_iff_pairwise, pairwise_sortedTags_iff hnames]
  simp only [hmem, and_assoc]

theorem consistent_iff {b : Buffer} (hnames : ∀ t ∈ b.tags, t.name ≠ []) :
    b.Consistent ↔ b.ids.Nodup ∧ b.check = .ok () := by
  have hapart : b.tags.Pairwise Tag.Apart ↔
      b.tags.Pairwise fun t u => t.stop ≤ u.position ∨ u.stop ≤ t.position :=
    List.Pairwise.iff_of_mem fun ht hu => Tag.apart_iff (hnames _ ht) (hnames _ hu)
  rw [check_eq_ok_iff hnames, hapart]
  constructor
  · intro h
    exact ⟨h.nodup_ids, ⟨h.cursor_nonneg, h.cursor_le⟩,
      fun t ht => ⟨h.position_nonneg t ht, h.stop_le t ht, h.span_eq t ht⟩, h.disjoint,
      h.active_mem⟩
  · rintro ⟨hids, ⟨h₀, h₁⟩, hfits, hdisjoint, hactive⟩
    exact
      { nodup_ids := hids
        cursor_nonneg := h₀
        cursor_le := h₁
        position_nonneg := fun t ht => (hfits t ht).position_nonneg
        stop_le := fun t ht => (hfits t ht).stop_le
        span_eq := fun t ht => (hfits t ht).span_eq
        disjoint := hdisjoint
        active_mem := hactive }

/-- The check decides whether the parts of a buffer fit together. Tags have ids of their own because
they are filed under them, and so this is all that consistency asks for. -/
theorem check_decides {b : Buffer} (hnames : ∀ t ∈ b.tags, t.name ≠ []) :
    (b.check = .ok () ↔ (0 ≤ b.cursor ∧ b.cursor ≤ b.length) ∧ (∀ t ∈ b.tags, t.Fits b.text) ∧
      b.tags.Pairwise Tag.Apart ∧ ∀ id, b.active = some id → id ∈ b.ids) ∧
    (b.ids.Nodup → (b.check = .ok () ↔ b.Consistent)) :=
  ⟨check_eq_ok_iff hnames, fun hids => by simp only [consistent_iff hnames, hids, true_and]⟩

/-- Tags may be kept in any order. Two that start together are refused. -/
theorem check_decides_two_tags :
    let a : Suggestion := ⟨1, "A".toList, 0⟩
    let b : Suggestion := ⟨2, "AB".toList, 0⟩
    let apart : Buffer :=
      { text := "A+AB".toList, tags := [.ofSuggestion b 2, .ofSuggestion a 0], active := some 2 }
    let together : Buffer :=
      { text := "AB".toList, tags := [.ofSuggestion a 0, .ofSuggestion b 0] }
    (∀ t ∈ apart.tags, t.name ≠ []) ∧ apart.check = .ok () ∧
      apart.ids.Nodup ∧ apart.Consistent ∧
      (∀ t ∈ together.tags, t.name ≠ []) ∧ together.check ≠ .ok () := by
  intro a b apart together
  have ha : a.name ≠ [] := by decide
  have hb : b.name ≠ [] := by decide
  have hapart : ∀ t ∈ apart.tags, t.name ≠ [] := List.forall_iff_forall_mem.1 ⟨hb, ha⟩
  have htogether : ∀ t ∈ together.tags, t.name ≠ [] := List.forall_iff_forall_mem.1 ⟨ha, hb⟩
  have hids : apart.ids.Nodup := by decide
  have hcheck : apart.check = .ok () := by
    have hfits : ∀ t ∈ apart.tags, t.Fits apart.text :=
      List.forall_iff_forall_mem.1 ⟨⟨by decide, by decide, by decide⟩,
        ⟨by decide, by decide, by decide⟩⟩
    have hpair : apart.tags.Pairwise Tag.Apart :=
      List.pairwise_pair.2 ((Tag.apart_iff hb ha).2 (.inr (by decide)))
    have hactive : ∀ id, apart.active = some id → id ∈ apart.ids := by
      rintro _ ⟨⟩
      decide
    exact (check_decides hapart).1.2 ⟨by decide, hfits, hpair, hactive⟩
  refine ⟨hapart, hcheck, hids, ((check_decides hapart).2 hids).1 hcheck, htogether, fun h => ?_⟩
  obtain ⟨-, -, hpair, -⟩ := (check_decides htogether).1.1 h
  have hshared := List.rel_of_pairwise_cons hpair (List.mem_singleton_self _) 0
  exact hshared (by decide)

end Buffer

end TagFormula
