import Mathlib.Data.List.Nodup
import TagFormula.Proofs.Buffer.Change

/-!
# The edits of a laid out buffer

Where the arguments of an edit are right, it turns a laid out buffer into a laid
out buffer, and succeeds. Each statement gives the row before the edit parted at
the joints that the edit is about, and the row, the cursor and the active tag
after it. Everything that is proved about runs of edits rests on these statements
alone, and no longer on offsets.
-/

namespace TagFormula

namespace Buffer

open Cell

/-- A change that leaves a laid out buffer goes through. -/
theorem run_transaction {b : Buffer} {change : Buffer → Buffer} {cells : List Cell}
    (h : (change b).Layout cells) : (transaction change).run b = .ok () (change b) :=
  run_transaction_of_check h.check_eq

theorem layout_empty : empty.Layout [] where
  wellFormed := wellFormed_nil
  text_eq := rfl
  tags_perm := List.Perm.refl _
  cursor_nonneg := Int.le_refl 0
  cursor_le := Int.le_refl 0
  active_mem := by simp [empty]

namespace Layout

theorem isBoundary {b : Buffer} {l r : List Cell} (h : b.Layout (l ++ r)) :
    b.IsBoundary (extent l) :=
  h.isBoundary_iff.2 ⟨l, r, rfl, rfl⟩

theorem find?_eq {b : Buffer} {l r : List Cell} {s : Suggestion}
    (h : b.Layout (l ++ tag s :: r)) : b.find? s.id = some (.ofSuggestion s (extent l)) := by
  have hmem : Tag.ofSuggestion s (extent l) ∈ b.tags := h.mem_tags_iff.2 ⟨l, r, rfl, rfl⟩
  obtain ⟨t, ht⟩ : ∃ t, b.find? s.id = some t := by
    rw [← Option.isSome_iff_exists, Buffer.find?, List.find?_isSome]
    exact ⟨_, hmem, by simp [Tag.ofSuggestion]⟩
  have hid : t.id = s.id := id_of_find? ht
  -- Ids are told apart, so a tag with this id is the tag of the cell.
  have heq := List.inj_on_of_nodup_map h.consistent.nodup_ids (mem_of_find? ht) hmem hid
  rw [ht, heq]

/-- The active tag is one of the row, so only the ids of the row matter to a filter. -/
theorem filter_active_congr {b : Buffer} {cells : List Cell} (h : b.Layout cells)
    {keep keep' : Int → Bool} (heq : ∀ id ∈ Cell.ids cells, keep id = keep' id) :
    b.active.filter keep = b.active.filter keep' := by
  cases hactive : b.active with
  | none => rfl
  | some id => simp only [Option.filter, heq id (h.active_mem id hactive)]

theorem filter_active {b : Buffer} {cells : List Cell} (h : b.Layout cells)
    {keep : Int → Bool} (hkeep : ∀ id ∈ Cell.ids cells, keep id = true) :
    b.active.filter keep = b.active := by
  rw [h.filter_active_congr hkeep]
  cases b.active <;> rfl

/-- When cells are taken out, an active tag that is not among them is among the cells
that remain. -/
theorem filter_active_remaining {b : Buffer} {l m r : List Cell}
    (h : b.Layout (l ++ (m ++ r))) :
    (b.active.filter fun id => id ∉ Cell.ids m) =
      b.active.filter fun id => id ∈ Cell.ids (l ++ r) := by
  refine h.filter_active_congr fun id hid => ?_
  rw [decide_eq_decide, h.wellFormed.mem_ids_iff_not_mem hid]

/-! ## The text -/

theorem run_insertText {b : Buffer} {l r : List Cell} (h : b.Layout (l ++ r)) (s : Text) :
    ∃ b', (insertText (extent l) s).run b = .ok () b' ∧
      b'.Layout (l ++ (s.map .char ++ r)) ∧ b'.cursor = b.cursor ∧ b'.active = b.active := by
  rw [Buffer.run_insertText h.isBoundary]
  cases s with
  | nil => exact ⟨b, rfl, h, rfl, rfl⟩
  | cons c s =>
      have hlayout := h.splice (c :: s)
      exact ⟨_, run_transaction hlayout, hlayout, rfl, rfl⟩

theorem run_insertTag {b : Buffer} {l r : List Cell} (h : b.Layout (l ++ r)) {s : Suggestion}
    (hs : s.Valid) (hid : s.id ∉ Cell.ids (l ++ r)) :
    ∃ b', (insertTag s (extent l)).run b = .ok (.ofSuggestion s (extent l)) b' ∧
      b'.Layout (l ++ tag s :: r) ∧ b'.cursor = extent (l ++ [tag s]) ∧
        b'.active = b.active := by
  have hlayout := h.place hs hid
  have hid' : s.id ∉ b.ids := fun hmem => hid (h.mem_ids_iff.1 hmem)
  refine ⟨_, Buffer.run_insertTag hs hid' h.isBoundary (run_transaction hlayout), hlayout, ?_, rfl⟩
  simp [Buffer.place, Tag.stop, Tag.ofSuggestion]

theorem run_deleteRange {b : Buffer} {l m r : List Cell} (h : b.Layout (l ++ (m ++ r))) :
    ∃ b', (deleteRange (extent l) (extent l + extent m)).run b = .ok () b' ∧
      b'.Layout (l ++ r) ∧ b'.cursor = min b.cursor (extent (l ++ r)) ∧
        b'.active = b.active.filter fun id => id ∈ Cell.ids (l ++ r) := by
  have hlayout := h.cut
  rw [← h.filter_active_remaining]
  cases m with
  | nil =>
      have hcursor := h.cursor_le
      have hp := h.isBoundary
      refine ⟨b, ?_, h, (Int.min_eq_left hcursor).symm, ?_⟩
      · rw [extent_nil, Int.natCast_zero, Int.add_zero]
        exact run_deleteRange_self hp.nonneg hp.le_length
      · cases b.active <;> simp [Option.filter]
  | cons c m =>
      have hwidth : 0 < c.width := h.wellFormed.width_pos (by simp)
      have hsplit : b.Layout ((l ++ c :: m) ++ r) := by
        rw [List.append_assoc]
        exact h
      have hq := hsplit.isBoundary
      rw [extent_append, Int.natCast_add] at hq
      have hlt : (extent l : Int) < extent l + extent (c :: m) := by
        rw [extent_cons]
        omega
      rw [Buffer.run_deleteRange h.isBoundary hq hlt]
      exact ⟨_, run_transaction hlayout, hlayout, cursor_cut h, active_cut h⟩

theorem run_removeTag {b : Buffer} {l r : List Cell} {s : Suggestion}
    (h : b.Layout (l ++ tag s :: r)) :
    ∃ b', (removeTag s.id).run b = .ok (.ofSuggestion s (extent l)) b' ∧
      b'.Layout (l ++ r) ∧ b'.cursor = extent l ∧
        b'.active = b.active.filter fun id => id ∈ Cell.ids (l ++ r) := by
  have hlayout := h.takeOut
  have hrow : b.Layout (l ++ ([tag s] ++ r)) := h
  refine ⟨_, Buffer.run_removeTag h.find?_eq (run_transaction hlayout), hlayout, rfl, ?_⟩
  rw [← hrow.filter_active_remaining]
  refine h.filter_active_congr fun id _ => ?_
  rw [decide_eq_decide, ids_tag, ids_nil, List.mem_singleton]
  exact Iff.rfl

/-! ## Cursor and active tag -/

theorem withCursor {b : Buffer} {cells : List Cell} (h : b.Layout cells) {p : Int}
    (h₀ : 0 ≤ p) (h₁ : p ≤ extent cells) : ({ b with cursor := p } : Buffer).Layout cells :=
  { h with cursor_nonneg := h₀, cursor_le := h₁ }

theorem withActive {b : Buffer} {cells : List Cell} (h : b.Layout cells) {active : Option Int}
    (hid : ∀ id, active = some id → id ∈ Cell.ids cells) :
    ({ b with active := active } : Buffer).Layout cells :=
  { h with active_mem := hid }

theorem run_setCursor {b : Buffer} {cells : List Cell} (h : b.Layout cells) {p : Int}
    (h₀ : 0 ≤ p) (h₁ : p ≤ extent cells) :
    (setCursor p).run b = .ok () { b with cursor := p } := by
  have hp : p ≤ b.length := by
    rw [h.length_eq]
    exact h₁
  simp only [setCursor, EStateM.run_bind, run_requireOffset h₀ hp, EStateM.run_modify]

theorem run_getTag {b : Buffer} {cells : List Cell} (h : b.Layout cells) {id : Int}
    (hid : id ∈ Cell.ids cells) : ∃ t, t.id = id ∧ (getTag id).run b = .ok t b := by
  obtain ⟨s, hs, rfl⟩ := Cell.mem_ids_iff.1 hid
  obtain ⟨l, r, rfl⟩ := List.append_of_mem hs
  exact ⟨_, rfl, Buffer.run_getTag h.find?_eq⟩

theorem run_setActive_none {b : Buffer} :
    (setActive none).run b = .ok () { b with active := none } := rfl

theorem run_setActive {b : Buffer} {cells : List Cell} (h : b.Layout cells) {id : Int}
    (hid : id ∈ Cell.ids cells) :
    (setActive (some id)).run b = .ok () { b with active := some id } := by
  obtain ⟨t, -, ht⟩ := h.run_getTag hid
  simp only [setActive, EStateM.run_bind, ht, EStateM.run_modify]

theorem run_toggleActive {b : Buffer} {cells : List Cell} (h : b.Layout cells) {id : Int}
    (hid : id ∈ Cell.ids cells) :
    (toggleActive id).run b =
      .ok (if b.active = some id then none else some id)
        { b with active := if b.active = some id then none else some id } := by
  obtain ⟨t, -, ht⟩ := h.run_getTag hid
  simp only [toggleActive, EStateM.run_bind, ht, EStateM.run_modify, EStateM.run_get,
    EStateM.run_pure]

theorem run_activeTag {b : Buffer} {cells : List Cell} (h : b.Layout cells) :
    ∃ t : Option Tag, activeTag.run b = .ok t b ∧ t.map (·.id) = b.active := by
  cases hactive : b.active with
  | none => exact ⟨none, run_activeTag_none hactive, rfl⟩
  | some id =>
      obtain ⟨s, hs, rfl⟩ := Cell.mem_ids_iff.1 (h.active_mem id hactive)
      obtain ⟨l, r, rfl⟩ := List.append_of_mem hs
      exact ⟨_, run_activeTag_some hactive h.find?_eq, rfl⟩

end Layout

end Buffer

end TagFormula
