import TagFormula.Proofs.Buffer.Cell
import TagFormula.Proofs.Buffer.Check

/-!
# The cells of a buffer

`Buffer.cells` reads a buffer from left to right. At the offset where a tag starts
it yields the variable and passes over the name, and elsewhere it yields the
character. The order in which the tags are kept plays no part.

`Layout b cells` says the converse, that the buffer is what this row of cells
looks like as a text with anchored tags. It is the invariant of the edits: an
edit is understood once it is known which row it turns a row into. A laid out
buffer is consistent, passes its own check, and reads as the row it was laid out
from (`Layout.consistent`, `Layout.check_eq`, `Layout.cells_eq`).
-/

namespace TagFormula

namespace Buffer

open Cell

/-- Reads the cells of a text from an offset on, the next `skip` characters being
part of a name that has been read already. -/
def cellsFrom (tags : List Tag) : Int → Nat → Text → List Cell
  | _, _, [] => []
  | p, skip + 1, _ :: rest => cellsFrom tags (p + 1) skip rest
  | p, 0, c :: rest =>
      match tags.find? fun t => t.position == p with
      | some t => .tag t.toSuggestion :: cellsFrom tags (p + 1) (t.name.length - 1) rest
      | none => .char c :: cellsFrom tags (p + 1) 0 rest

/-- The cells of a buffer, from left to right. -/
def cells (b : Buffer) : List Cell :=
  cellsFrom b.tags 0 0 b.text

/-- An offset lies in the text and not strictly inside a tag. -/
structure IsBoundary (b : Buffer) (p : Int) : Prop where
  nonneg : 0 ≤ p
  le_length : p ≤ b.length
  outside : ∀ t ∈ b.tags, ¬ (t.position < p ∧ p < t.stop)

/-- A buffer is laid out as a row of cells. -/
structure Layout (b : Buffer) (cells : List Cell) : Prop where
  wellFormed : WellFormed cells
  text_eq : b.text = contents cells
  tags_perm : b.tags.Perm (tagsFrom 0 cells)
  cursor_nonneg : 0 ≤ b.cursor
  cursor_le : b.cursor ≤ extent cells
  active_mem : ∀ id, b.active = some id → id ∈ Cell.ids cells

/-! ## Reading a row back -/

theorem cellsFrom_skip (tags : List Tag) (p : Int) (xs rest : Text) :
    cellsFrom tags p xs.length (xs ++ rest) = cellsFrom tags (p + xs.length) 0 rest := by
  induction xs generalizing p with
  | nil => simp
  | cons x xs ih =>
      have hp : p + (xs.length + 1 : Int) = p + 1 + xs.length := by omega
      rw [List.cons_append, List.length_cons, cellsFrom, ih, Int.natCast_succ, hp]

/-- Reading the text of a row with its own tags gives the row. The tags that start
before the row do not matter. -/
theorem cellsFrom_contents {tags : List Tag} {p : Int} {cells : List Cell}
    (hw : WellFormed cells)
    (htags : ∀ t, p ≤ t.position → (t ∈ tags ↔ t ∈ tagsFrom p cells)) :
    cellsFrom tags p 0 (contents cells) = cells := by
  induction cells generalizing p with
  | nil => rfl
  | cons c cells ih =>
      have hw' : WellFormed cells := WellFormed.of_append_right (l := [c]) hw
      cases c with
      | char c =>
          have hfind : tags.find? (fun t => t.position == p) = none := by
            rw [List.find?_eq_none]
            intro t ht hp
            have hp' : t.position = p := by simpa using hp
            have hmem : t ∈ tagsFrom (p + 1) cells := (htags t (by omega)).1 ht
            have := (bounds_of_mem_tagsFrom hmem).1
            omega
          have ih' := ih (p := p + 1) hw' fun t hp => htags t (by omega)
          simp only [contents_cons, content, List.singleton_append, cellsFrom, hfind, ih']
      | tag s =>
          have hhead : Tag.ofSuggestion s p ∈ tagsFrom p (tag s :: cells) :=
            List.mem_cons_self ..
          have hlt := hw.position_lt_stop hhead
          have hne : s.name ≠ [] := (hw.valid s (List.mem_cons_self ..)).name_ne_nil
          obtain ⟨c, name, hname⟩ := List.exists_cons_of_ne_nil hne
          have hlen : (s.name.length : Int) = 1 + name.length := by
            rw [hname, List.length_cons]
            omega
          obtain ⟨t, hfind⟩ : ∃ t, tags.find? (fun t => t.position == p) = some t := by
            rw [← Option.isSome_iff_exists, List.find?_isSome]
            exact ⟨_, (htags _ (Int.le_refl p)).2 hhead, by simp [Tag.ofSuggestion]⟩
          -- Only the first cell starts at `p`, so this is the tag that is found.
          have ht : t = Tag.ofSuggestion s p := by
            have hp : t.position = p := by simpa using List.find?_some hfind
            have hmem := (htags t (by omega)).1 (List.mem_of_find?_eq_some hfind)
            refine eq_of_mem_tagsFrom hmem hhead ?_ ?_
            · rw [hp]
              exact hlt
            · have := hw.position_lt_stop hmem
              simp only [Tag.ofSuggestion]
              omega
          have ih' := ih (p := p + 1 + name.length) hw' fun t hp => by
            rw [htags t (by omega), tagsFrom, List.mem_cons, hlen, ← Int.add_assoc]
            constructor
            · rintro (rfl | h)
              · simp only [Tag.ofSuggestion] at hp
                omega
              · exact h
            · exact Or.inr
          have hskip : (Tag.ofSuggestion s p).name.length - 1 = name.length := by
            simp [Tag.ofSuggestion, hname]
          rw [contents_cons, content, hname, List.cons_append, cellsFrom, hfind, ht]
          simp only [hskip, cellsFrom_skip, ih']
          rfl

namespace Layout

variable {b : Buffer} {cells : List Cell}

/-- A laid out buffer reads as the row that it was laid out from. -/
theorem cells_eq (h : b.Layout cells) : b.cells = cells := by
  rw [Buffer.cells, h.text_eq]
  exact cellsFrom_contents h.wellFormed fun t _ => h.tags_perm.mem_iff

theorem length_eq (h : b.Layout cells) : b.length = extent cells := by
  rw [Buffer.length, h.text_eq, extent]

theorem mem_tags_iff (h : b.Layout cells) {t : Tag} :
    t ∈ b.tags ↔ ∃ l r, cells = l ++ tag t.toSuggestion :: r ∧ t.position = extent l := by
  rw [h.tags_perm.mem_iff, mem_tagsFrom_iff]
  simp only [Int.zero_add]

theorem position_lt_stop (h : b.Layout cells) {t : Tag} (ht : t ∈ b.tags) :
    t.position < t.stop :=
  h.wellFormed.position_lt_stop (h.tags_perm.mem_iff.1 ht)

/-- Two tags that share an offset are the same. -/
theorem tag_eq (h : b.Layout cells) {t u : Tag} (ht : t ∈ b.tags) (hu : u ∈ b.tags)
    (htu : t.position < u.stop) (hut : u.position < t.stop) : t = u :=
  eq_of_mem_tagsFrom (h.tags_perm.mem_iff.1 ht) (h.tags_perm.mem_iff.1 hu) htu hut

theorem mem_ids_iff (h : b.Layout cells) {id : Int} : id ∈ b.ids ↔ id ∈ Cell.ids cells := by
  rw [← map_id_tagsFrom 0, Buffer.ids]
  exact (h.tags_perm.map _).mem_iff

/-- The boundaries of a laid out buffer are the joints of its row. -/
theorem isBoundary_iff (h : b.Layout cells) {p : Int} :
    b.IsBoundary p ↔ ∃ l r, cells = l ++ r ∧ (extent l : Int) = p := by
  constructor
  · rintro ⟨h₀, h₁, hout⟩
    rw [h.length_eq] at h₁
    obtain ⟨l, r, hlr, hp⟩ := exists_joint (q := 0) h₀ (by omega)
      fun t ht => hout t (h.tags_perm.mem_iff.2 ht)
    exact ⟨l, r, hlr, by omega⟩
  · rintro ⟨l, r, rfl, rfl⟩
    refine ⟨by omega, ?_, ?_⟩
    · rw [h.length_eq, extent_append]
      omega
    · intro t ht
      rw [h.tags_perm.mem_iff, tagsFrom_append, List.mem_append] at ht
      rcases ht with ht | ht
      · have := (bounds_of_mem_tagsFrom ht).2
        omega
      · have := (bounds_of_mem_tagsFrom ht).1
        omega

/-! ## Consistency -/

/-- The tags by position are the tags of the row. -/
theorem sortedTags_eq (h : b.Layout cells) : b.sortedTags = tagsFrom 0 cells := by
  have hperm : b.sortedTags.Perm (tagsFrom 0 cells) :=
    (List.mergeSort_perm _ _).trans h.tags_perm
  exact h.wellFormed.eq_tagsFrom hperm (Tag.pairwise_ascending b.tags)

theorem bounds (h : b.Layout cells) {t : Tag} (ht : t ∈ b.tags) :
    0 ≤ t.position ∧ t.stop ≤ b.length := by
  have := bounds_of_mem_tagsFrom (h.tags_perm.mem_iff.1 ht)
  rw [h.length_eq]
  omega

/-- The span of a tag holds its name. -/
theorem span_eq (h : b.Layout cells) {t : Tag} (ht : t ∈ b.tags) :
    Slice.between b.text t.position t.stop = t.name := by
  obtain ⟨l, r, rfl, hp⟩ := h.mem_tags_iff.1 ht
  rw [h.text_eq, contents_append, contents_cons, content, Tag.stop, hp]
  exact Slice.between_append (contents l) t.name (contents r)

theorem consistent (h : b.Layout cells) : b.Consistent where
  nodup_ids := by
    have hids : b.ids.Perm (Cell.ids cells) := by
      rw [← map_id_tagsFrom 0]
      exact h.tags_perm.map _
    exact hids.nodup_iff.2 h.wellFormed.nodup_ids
  cursor_nonneg := h.cursor_nonneg
  cursor_le := by
    rw [h.length_eq]
    exact h.cursor_le
  position_nonneg t ht := (h.bounds ht).1
  stop_le t ht := (h.bounds ht).2
  span_eq t ht := h.span_eq ht
  disjoint := by
    have hrow : (tagsFrom 0 cells).Pairwise
        fun t u => t.stop ≤ u.position ∨ u.stop ≤ t.position :=
      (pairwise_tagsFrom 0 cells).imp Or.inl
    exact h.tags_perm.symm.pairwise hrow Or.symm
  active_mem id hid := h.mem_ids_iff.2 (h.active_mem id hid)

end Layout

/-- A laid out buffer passes the check. -/
theorem Layout.check_eq {b : Buffer} {cells : List Cell} (h : b.Layout cells) :
    b.check = .ok () := by
  have hnames : ∀ t ∈ b.tags, t.name ≠ [] := fun t ht => by
    obtain ⟨l, r, rfl, -⟩ := h.mem_tags_iff.1 ht
    exact (h.wellFormed.valid t.toSuggestion (by simp)).name_ne_nil
  exact ((consistent_iff hnames).1 h.consistent).2

end Buffer

end TagFormula
