import TagFormula.Proofs.Buffer.Refusal

/-!
# What edits do to the cells

A change of the text splices or cuts the text at offsets, moves the tags behind
and keeps the tags before. On the row of cells of a laid out buffer it is an edit
of the row at a joint. For each change the layout of the buffer afterwards is
computed here; since a laid out buffer passes the check, the transaction goes
through, and the edit succeeds.

The tags are kept in the order in which they were put in, while those of a row
come in the order of the text. All statements about tags are therefore up to
permutation, and every step is a `map` or a `filter`, which permutations respect.
-/

namespace TagFormula

namespace Buffer

open Cell

/-! ## Moving and dropping the tags of a row -/

@[simp] theorem id_shiftFrom (p d : Int) (t : Tag) : (shiftFrom p d t).id = t.id := by
  unfold shiftFrom
  split <;> rfl

/-- Tags that lie before an offset stay. -/
theorem map_shiftFrom_left {l : List Cell} (hl : WellFormed l) {q p : Int}
    (hp : q + extent l ≤ p) (d : Int) :
    (tagsFrom q l).map (shiftFrom p d) = tagsFrom q l := by
  have hstay : ∀ t ∈ tagsFrom q l, shiftFrom p d t = id t := by
    intro t ht
    have hlt := hl.position_lt_stop ht
    have hstop := (bounds_of_mem_tagsFrom ht).2
    rw [shiftFrom, if_neg (by omega), id]
  rw [List.map_congr_left hstay, List.map_id]

/-- Tags that start at an offset or later move. -/
theorem map_shiftFrom_right (r : List Cell) {q p : Int} (hp : p ≤ q) (d : Int) :
    (tagsFrom q r).map (shiftFrom p d) = tagsFrom (q + d) r := by
  have hmove : ∀ t ∈ tagsFrom q r, shiftFrom p d t = t.shifted d := by
    intro t ht
    have hpos := (bounds_of_mem_tagsFrom ht).1
    rw [shiftFrom, if_pos (by omega)]
  rw [List.map_congr_left hmove, tagsFrom_shifted]

theorem isInside_left {l : List Cell} {p q : Int} (hp : extent l ≤ p) {t : Tag}
    (ht : t ∈ tagsFrom 0 l) : isInside p q t = false := by
  have hstop := (bounds_of_mem_tagsFrom ht).2
  have hle : t.stop ≤ p := by omega
  simp [isInside, hle]

theorem isInside_middle {m : List Cell} (hm : WellFormed m) {p : Int} {t : Tag}
    (ht : t ∈ tagsFrom p m) : isInside p (p + extent m) t = true := by
  have hlt := hm.position_lt_stop ht
  have hin := bounds_of_mem_tagsFrom ht
  simp only [isInside, Bool.and_eq_true, Bool.not_eq_true', Bool.or_eq_false_iff,
    decide_eq_true_eq, decide_eq_false_iff_not]
  omega

theorem isInside_right {r : List Cell} {p q : Int} {t : Tag} (ht : t ∈ tagsFrom q r) :
    isInside p q t = false := by
  have hpos := (bounds_of_mem_tagsFrom ht).1
  simp [isInside, hpos]

/-- Of the tags of a row those inside a range between two joints are the tags of
the cells between the joints. -/
theorem filter_isInside {l m r : List Cell} (h : WellFormed (l ++ (m ++ r))) :
    (tagsFrom 0 (l ++ (m ++ r))).filter (isInside (extent l) (extent l + extent m)) =
      tagsFrom (extent l) m := by
  have hm := h.of_append_right.of_append_left
  rw [tagsFrom_append, tagsFrom_append, List.filter_append, List.filter_append, Int.zero_add,
    List.filter_eq_nil_iff.2 fun t ht => by simp [isInside_left (Int.le_refl _) ht],
    List.filter_eq_self.2 fun t ht => isInside_middle hm ht,
    List.filter_eq_nil_iff.2 fun t ht => by simp [isInside_right ht],
    List.nil_append, List.append_nil]

/-- Of the tags of a row those not inside a range between two joints are the tags of
the other cells. -/
theorem filter_not_isInside {l m r : List Cell} (h : WellFormed (l ++ (m ++ r))) :
    (tagsFrom 0 (l ++ (m ++ r))).filter
        (fun t => !isInside (extent l) (extent l + extent m) t) =
      tagsFrom 0 l ++ tagsFrom (extent l + extent m) r := by
  have hm := h.of_append_right.of_append_left
  rw [tagsFrom_append, tagsFrom_append, List.filter_append, List.filter_append, Int.zero_add,
    List.filter_eq_self.2 fun t ht => by simp [isInside_left (Int.le_refl _) ht],
    List.filter_eq_nil_iff.2 fun t ht => by simp [isInside_middle hm ht],
    List.filter_eq_self.2 fun t ht => by simp [isInside_right ht],
    List.nil_append]

/-- Of the tags of a row those with another id than a cell are the tags of the other
cells. -/
theorem filter_id_ne {l r : List Cell} {s : Suggestion} (h : WellFormed (l ++ tag s :: r)) :
    (tagsFrom 0 (l ++ tag s :: r)).filter (fun t => t.id ≠ s.id) =
      tagsFrom 0 l ++ tagsFrom (extent l + s.name.length) r := by
  have hne : ∀ {q : Int} {cells : List Cell}, s.id ∉ Cell.ids cells →
      ∀ t ∈ tagsFrom q cells, decide (t.id ≠ s.id) = true := by
    intro q cells hs t ht
    have hid : t.id ∈ Cell.ids cells := mem_ids_iff.2 ⟨_, mem_of_mem_tagsFrom ht, rfl⟩
    exact decide_eq_true fun heq => hs (heq ▸ hid)
  obtain ⟨hl, hr⟩ := h.not_mem_ids
  rw [tagsFrom_append, tagsFrom, List.filter_append, Int.zero_add,
    List.filter_eq_self.2 (hne hl), List.filter_cons_of_neg (by simp [Tag.ofSuggestion]),
    List.filter_eq_self.2 (hne hr)]

/-! ## Changes -/

theorem text_before {b : Buffer} {l r : List Cell} (h : b.Layout (l ++ r)) :
    Slice.before b.text (extent l) = contents l := by
  rw [h.text_eq, contents_append]
  exact Slice.before_append _ _

theorem text_after {b : Buffer} {l r : List Cell} (h : b.Layout (l ++ r)) :
    Slice.after b.text (extent l) = contents r := by
  rw [h.text_eq, contents_append]
  exact Slice.after_append _ _

theorem text_after_middle {b : Buffer} {l m r : List Cell} (h : b.Layout (l ++ (m ++ r))) :
    Slice.after b.text (extent l + extent m) = contents r := by
  rw [← List.append_assoc] at h
  have hafter := text_after h
  rwa [extent_append, Int.natCast_add] at hafter

/-- The tags of a spliced buffer are those before the joint, and those behind it
moved on. -/
theorem tags_splice_perm {b : Buffer} {l r : List Cell} (h : b.Layout (l ++ r)) (s : Text) :
    (b.splice (extent l) s).tags.Perm (tagsFrom 0 l ++ tagsFrom (extent l + s.length) r) := by
  have hrow : (tagsFrom 0 (l ++ r)).map (shiftFrom (extent l) s.length) =
      tagsFrom 0 l ++ tagsFrom (extent l + s.length) r := by
    rw [tagsFrom_append, List.map_append, Int.zero_add,
      map_shiftFrom_left h.wellFormed.of_append_left (by omega),
      map_shiftFrom_right r (Int.le_refl _)]
  rw [← hrow]
  exact h.tags_perm.map _

theorem text_splice {b : Buffer} {l r : List Cell} (h : b.Layout (l ++ r)) (s : Text) :
    (b.splice (extent l) s).text = contents l ++ (s ++ contents r) := by
  rw [splice, text_before h, text_after h, List.append_assoc]

theorem Layout.splice {b : Buffer} {l r : List Cell} (h : b.Layout (l ++ r)) (s : Text) :
    (b.splice (extent l) s).Layout (l ++ (s.map .char ++ r)) where
  wellFormed := h.wellFormed.insert_text s
  text_eq := by
    rw [text_splice h, contents_append, contents_append, contents_map_char]
  tags_perm := by
    have hperm := tags_splice_perm h s
    simpa [tagsFrom_append, tagsFrom_map_char] using hperm
  cursor_nonneg := h.cursor_nonneg
  cursor_le := by
    have hcursor : (b.splice (extent l) s).cursor = b.cursor := rfl
    have := h.cursor_le
    simp only [extent_append, extent_map_char] at this ⊢
    omega
  active_mem id hid := by
    have hmem := h.active_mem id hid
    simpa using hmem

theorem Layout.place {b : Buffer} {l r : List Cell} (h : b.Layout (l ++ r)) {s : Suggestion}
    (hs : s.Valid) (hid : s.id ∉ Cell.ids (l ++ r)) :
    (place (.ofSuggestion s (extent l)) b).Layout (l ++ tag s :: r) where
  wellFormed := h.wellFormed.insert_tag hs hid
  text_eq := by
    rw [contents_append, contents_cons, content]
    exact text_splice h s.name
  tags_perm := by
    have hperm := (tags_splice_perm h s.name).append_right [Tag.ofSuggestion s (extent l)]
    rw [tagsFrom_append, tagsFrom, Int.zero_add]
    refine hperm.trans ?_
    rw [List.append_assoc]
    exact (List.perm_append_comm).append_left _
  cursor_nonneg := by
    simp only [Buffer.place, Tag.stop, Tag.ofSuggestion]
    omega
  cursor_le := by
    simp only [Buffer.place, Tag.stop, Tag.ofSuggestion, extent_append, extent_cons, width_tag]
    omega
  active_mem id hactive := by
    have hmem := h.active_mem id hactive
    rw [ids_append, ids_tag, List.mem_append, List.mem_cons]
    rcases List.mem_append.1 (ids_append l r ▸ hmem) with hl | hr
    · exact .inl hl
    · exact .inr (.inr hr)

/-- What is dropped with a range are the cells between its joints. -/
theorem mem_dropped_iff {b : Buffer} {l m r : List Cell} (h : b.Layout (l ++ (m ++ r)))
    {id : Int} :
    id ∈ (b.tags.filter (isInside (extent l) (extent l + extent m))).map (·.id) ↔
      id ∈ Cell.ids m := by
  rw [← map_id_tagsFrom (extent l), ← filter_isInside h.wellFormed]
  exact ((h.tags_perm.filter _).map _).mem_iff

theorem active_cut {b : Buffer} {l m r : List Cell} (h : b.Layout (l ++ (m ++ r))) :
    (cut (extent l) (extent l + extent m) b).active =
      b.active.filter fun id => id ∉ Cell.ids m := by
  rw [cut]
  refine congrArg (fun f => b.active.filter f) ?_
  funext id
  simp only [List.contains_eq_mem, mem_dropped_iff h, decide_not]

theorem text_cut {b : Buffer} {l m r : List Cell} (h : b.Layout (l ++ (m ++ r))) :
    (cut (extent l) (extent l + extent m) b).text = contents l ++ contents r := by
  rw [cut, text_before h, text_after_middle h]

theorem cursor_cut {b : Buffer} {l m r : List Cell} (h : b.Layout (l ++ (m ++ r))) :
    (cut (extent l) (extent l + extent m) b).cursor = min b.cursor (extent (l ++ r)) := by
  have hlength : (cut (extent l) (extent l + extent m) b).text.length = extent (l ++ r) := by
    rw [text_cut h, extent, contents_append]
  rw [← hlength]
  rfl

theorem Layout.cut {b : Buffer} {l m r : List Cell} (h : b.Layout (l ++ (m ++ r))) :
    (cut (extent l) (extent l + extent m) b).Layout (l ++ r) where
  wellFormed :=
    h.wellFormed.of_sublist ((List.Sublist.refl l).append (List.sublist_append_right m r))
  text_eq := by
    rw [text_cut h, contents_append]
  tags_perm := by
    have hrow : (tagsFrom 0 l ++ tagsFrom (extent l + extent m) r).map
          (shiftFrom (extent l + extent m) (-(extent l + extent m - extent l))) =
        tagsFrom 0 (l ++ r) := by
      have hback : (extent l + extent m + -(extent l + extent m - extent l) : Int) =
          0 + extent l := by omega
      rw [List.map_append, map_shiftFrom_left h.wellFormed.of_append_left (by omega),
        map_shiftFrom_right r (Int.le_refl _), hback, tagsFrom_append]
    rw [← hrow, ← filter_not_isInside h.wellFormed]
    exact (h.tags_perm.filter _).map _
  cursor_nonneg := by
    have hcursor := h.cursor_nonneg
    rw [cursor_cut h]
    omega
  cursor_le := by
    rw [cursor_cut h]
    exact Int.min_le_right _ _
  active_mem id hactive := by
    rw [active_cut h, Option.filter_eq_some_iff] at hactive
    obtain ⟨hid, hnot⟩ := hactive
    have hmem := h.active_mem id hid
    simp only [ids_append, List.mem_append] at hmem ⊢
    rcases hmem with hl | hm | hr
    · exact .inl hl
    · exact absurd hm (by simpa using hnot)
    · exact .inr hr

theorem Layout.takeOut {b : Buffer} {l r : List Cell} {s : Suggestion}
    (h : b.Layout (l ++ tag s :: r)) :
    (takeOut (.ofSuggestion s (extent l)) b).Layout (l ++ r) where
  wellFormed :=
    h.wellFormed.of_sublist ((List.Sublist.refl l).append (List.sublist_cons_self _ r))
  text_eq := by
    have hrow : b.Layout (l ++ ([tag s] ++ r)) := h
    have hstop : (Tag.ofSuggestion s (extent l)).stop = extent l + extent [tag s] := by
      simp [Tag.stop, Tag.ofSuggestion]
    rw [Buffer.takeOut, hstop, text_after_middle hrow, contents_append]
    exact congrArg (· ++ contents r) (text_before h)
  tags_perm := by
    have hpos : 0 < s.name.length :=
      List.length_pos_iff.2 (h.wellFormed.valid s (by simp)).name_ne_nil
    have hrow : (tagsFrom 0 l ++ tagsFrom (extent l + s.name.length) r).map
          (shiftFrom (extent l + 1) (-s.name.length)) = tagsFrom 0 (l ++ r) := by
      have hback : (extent l + s.name.length + -s.name.length : Int) = 0 + extent l := by omega
      rw [List.map_append, map_shiftFrom_left h.wellFormed.of_append_left (by omega),
        map_shiftFrom_right r (by omega), hback, tagsFrom_append]
    rw [← hrow, ← filter_id_ne h.wellFormed]
    exact (h.tags_perm.filter _).map _
  cursor_nonneg := by
    simp only [Buffer.takeOut, Tag.ofSuggestion]
    omega
  cursor_le := by
    simp only [Buffer.takeOut, Tag.ofSuggestion, extent_append]
    omega
  active_mem id hactive := by
    rw [Buffer.takeOut, Option.filter_eq_some_iff] at hactive
    obtain ⟨hid, hne⟩ := hactive
    have hmem := h.active_mem id hid
    simp only [ids_append, ids_tag, List.mem_append, List.mem_cons] at hmem ⊢
    rcases hmem with hl | heq | hr
    · exact .inl hl
    · exact absurd heq (of_decide_eq_true hne)
    · exact .inr hr

end Buffer

end TagFormula
