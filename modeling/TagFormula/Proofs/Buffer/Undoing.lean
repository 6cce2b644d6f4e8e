import TagFormula.Proofs.Buffer.Operation

/-!
# Edits that take each other back

What is put in at an offset moves the tags that start there or later. Taking a tag out moves
back the tags that start behind its own start, and deleting a range those that start at its end
or later. The comparisons differ, and so do the offsets; that they part the tags in the same way
is due to the tags between them: there are none, because names are not empty and no two tags
overlap (`shiftFrom_shiftFrom` and its uses).

So an insertion is taken back by the removal of what was put in, down to the order in which the
tags are kept. The other way round a tag that is put back comes last among the tags, and everything
else is as it was (`edits_undone`).
-/

namespace TagFormula

attribute [ext] Buffer

theorem Tag.shifted_neg_shifted (t : Tag) (d : Int) : (t.shifted d).shifted (-d) = t := by
  have hposition : t.position + d + -d = t.position := by omega
  simp only [Tag.shifted, hposition]

namespace Buffer

open Cell

/-! ## Tags moved there and back -/

/-- A tag comes back to its place when both moves take it for one behind, or both for one before. -/
theorem shiftFrom_shiftFrom {p q d : Int} {t : Tag} (hbehind : p ≤ t.position → q ≤ t.position + d)
    (hbefore : t.position < p → t.position < q) : shiftFrom q (-d) (shiftFrom p d t) = t := by
  by_cases h : p ≤ t.position
  · have hmoved : q ≤ (t.shifted d).position := hbehind h
    rw [shiftFrom.eq_def p, if_pos h, shiftFrom, if_pos hmoved, Tag.shifted_neg_shifted]
  · have hkept := hbefore (Int.not_le.1 h)
    rw [shiftFrom.eq_def p, if_neg h, shiftFrom, if_neg (Int.not_le.2 hkept)]

theorem map_shiftFrom_shiftFrom {p q d : Int} (tags : List Tag)
    (hbehind : ∀ t ∈ tags, p ≤ t.position → q ≤ t.position + d)
    (hbefore : ∀ t ∈ tags, t.position < p → t.position < q) :
    (tags.map (shiftFrom p d)).map (shiftFrom q (-d)) = tags := by
  have hback : ∀ t ∈ tags, (shiftFrom q (-d) ∘ shiftFrom p d) t = id t := fun t ht =>
    shiftFrom_shiftFrom (hbehind t ht) (hbefore t ht)
  rw [List.map_map, List.map_congr_left hback, List.map_id]

variable {b : Buffer} {l r : List Cell} {s : Suggestion}

/-! ## Changes taken back -/

/-- Taking out the tag that was put in last. -/
theorem tags_takeOut_place {t : Tag} (hname : t.name ≠ []) (hid : t.id ∉ b.ids) :
    (takeOut t (place t b)).tags = b.tags := by
  have hpos : 0 < t.name.length := List.length_pos_iff.2 hname
  have hothers : ∀ u ∈ b.tags.map (shiftFrom t.position t.name.length),
      decide (u.id ≠ t.id) = true := by
    intro u hu
    obtain ⟨v, hv, rfl⟩ := List.mem_map.1 hu
    refine decide_eq_true fun heq => hid ?_
    rw [← heq, id_shiftFrom]
    exact List.mem_map_of_mem hv
  have hself : ([t].filter fun u => decide (u.id ≠ t.id)) = [] := by simp
  have hback := map_shiftFrom_shiftFrom (p := t.position) (q := t.position + 1)
    (d := t.name.length) b.tags (fun u _ _ => by omega) fun u _ _ => by omega
  rw [takeOut, place, splice]
  dsimp only
  rw [List.filter_append, List.filter_eq_self.2 hothers, hself, List.append_nil, hback]

theorem Layout.takeOut_place (h : b.Layout (l ++ r)) (hs : s.Valid) (hid : s.id ∉ b.ids) :
    Buffer.takeOut (.ofSuggestion s (extent l)) (Buffer.place (.ofSuggestion s (extent l)) b) =
      { b with cursor := extent l } := by
  have hid' : s.id ∉ Cell.ids (l ++ r) := fun hmem => hid (h.mem_ids_iff.2 hmem)
  have hlayout := (h.place hs hid').takeOut
  have hactive : b.active.filter (fun id => decide (id ≠ s.id)) = b.active :=
    h.filter_active fun id hmem => decide_eq_true fun heq => hid' (heq ▸ hmem)
  exact Buffer.ext (hlayout.text_eq.trans h.text_eq.symm)
    (tags_takeOut_place (t := .ofSuggestion s (extent l)) hs.name_ne_nil hid) rfl hactive

/-- Tags that moved on for a text, or stand before it, do not lie in it. -/
theorem isInside_shiftFrom {p : Int} {n : Nat} {t : Tag} (ht : ¬ (t.position < p ∧ p < t.stop)) :
    isInside p (p + n) (shiftFrom p n t) = false := by
  by_cases h : p ≤ t.position
  · have hbehind : p + n ≤ t.position + n := by omega
    rw [shiftFrom, if_pos h]
    simp [isInside, hbehind]
  · have hbefore : t.stop ≤ p := by omega
    rw [shiftFrom, if_neg h]
    simp [isInside, hbefore]

/-- Deleting the text that was put in last. -/
theorem tags_cut_splice {p : Int} (hp : b.IsBoundary p) (s : Text) :
    (cut p (p + s.length) (b.splice p s)).tags = b.tags := by
  have hkept : ∀ t ∈ b.tags.map (shiftFrom p s.length),
      (!isInside p (p + s.length) t) = true := by
    intro t ht
    obtain ⟨u, hu, rfl⟩ := List.mem_map.1 ht
    rw [isInside_shiftFrom (hp.outside u hu)]
    rfl
  have hwidth : (p + s.length - p : Int) = s.length := by omega
  have hback := map_shiftFrom_shiftFrom (p := p) (q := p + s.length) (d := s.length) b.tags
    (fun t _ _ => by omega) fun t _ _ => by omega
  rw [cut, splice]
  dsimp only
  rw [List.filter_eq_self.2 hkept, hwidth, hback]

theorem Layout.cut_splice (h : b.Layout (l ++ r)) (s : Text) :
    Buffer.cut (extent l) (extent l + s.length) (b.splice (extent l) s) = b := by
  have hsplice := h.splice s
  have hlayout := hsplice.cut
  have hcursor := cursor_cut hsplice
  have hactive := active_cut hsplice
  rw [extent_map_char] at hlayout hcursor hactive
  refine Buffer.ext (hlayout.text_eq.trans h.text_eq.symm) (tags_cut_splice h.isBoundary s) ?_ ?_
  · rw [hcursor]
    exact Int.min_eq_left h.cursor_le
  · rw [hactive, ids_map_char]
    exact h.filter_active fun id _ => by simp

/-- No other tag of the row starts where a tag starts, or inside it. -/
theorem Layout.apart_of_id_ne (h : b.Layout (l ++ tag s :: r)) {u : Tag} (hu : u ∈ b.tags)
    (hid : u.id ≠ s.id) : u.position < extent l ∨ extent l + s.name.length ≤ u.position := by
  have hself : Tag.ofSuggestion s (extent l) ∈ b.tags := h.mem_tags_iff.2 ⟨l, r, rfl, rfl⟩
  have hposition : (Tag.ofSuggestion s (extent l)).position = extent l := rfl
  have hstop : (Tag.ofSuggestion s (extent l)).stop = extent l + s.name.length := rfl
  have hlt := h.position_lt_stop hu
  refine Classical.byContradiction fun hno => hid ?_
  rw [h.tag_eq hu hself (by omega) (by omega)]
  rfl

/-- Putting back a tag that was taken out: it comes last now, and the others are where they were. -/
theorem Layout.tags_place_takeOut (h : b.Layout (l ++ tag s :: r)) :
    (Buffer.place (.ofSuggestion s (extent l)) (Buffer.takeOut (.ofSuggestion s (extent l)) b)).tags =
      b.tags.filter (fun u => u.id ≠ s.id) ++ [.ofSuggestion s (extent l)] := by
  have hpos : 0 < s.name.length :=
    List.length_pos_iff.2 (h.wellFormed.valid s (by simp)).name_ne_nil
  have hapart : ∀ u ∈ b.tags.filter (fun u => decide (u.id ≠ s.id)),
      u.position < extent l ∨ extent l + s.name.length ≤ u.position := by
    intro u hu
    obtain ⟨hmem, hne⟩ := List.mem_filter.1 hu
    exact h.apart_of_id_ne hmem (of_decide_eq_true hne)
  have hback := map_shiftFrom_shiftFrom (p := extent l + 1) (q := extent l)
    (d := -s.name.length) (b.tags.filter fun u => decide (u.id ≠ s.id))
    (fun u hu hle => by rcases hapart u hu with hlt | hle' <;> omega)
    (fun u hu hlt => by rcases hapart u hu with hlt' | hle <;> omega)
  rw [Int.neg_neg] at hback
  rw [Buffer.place, Buffer.splice, Buffer.takeOut]
  exact congrArg (· ++ [Tag.ofSuggestion s (extent l)]) hback

theorem Layout.place_takeOut (h : b.Layout (l ++ tag s :: r)) :
    Buffer.place (.ofSuggestion s (extent l)) (Buffer.takeOut (.ofSuggestion s (extent l)) b) =
      { b with
        tags := b.tags.filter (fun u => u.id ≠ s.id) ++ [.ofSuggestion s (extent l)]
        cursor := extent l + s.name.length
        active := b.active.filter fun id => id ≠ s.id } := by
  have hid := h.wellFormed.not_mem_ids
  have hlayout := h.takeOut.place (h.wellFormed.valid s (by simp)) (by simpa using hid)
  exact Buffer.ext (hlayout.text_eq.trans h.text_eq.symm) h.tags_place_takeOut rfl rfl

/-! ## Edits taken back -/

namespace Layout

theorem apply_insertTag_removeTag (h : b.Layout (l ++ r)) (hs : s.Valid) (hid : s.id ∉ b.ids) :
    b.apply (do let t ← insertTag s (extent l); removeTag t.id) =
      (.ok (.ofSuggestion s (extent l)), { b with cursor := extent l }) := by
  have hid' : s.id ∉ Cell.ids (l ++ r) := fun hmem => hid (h.mem_ids_iff.2 hmem)
  have hplace := h.place hs hid'
  have hinsert := Buffer.run_insertTag hs hid h.isBoundary (run_transaction hplace)
  have hremove := Buffer.run_removeTag hplace.find?_eq (run_transaction hplace.takeOut)
  rw [h.takeOut_place hs hid] at hremove
  exact apply_of_run_ok ((run_bind_of_ok hinsert).trans hremove)

theorem apply_insertText_deleteRange (h : b.Layout (l ++ r)) (s : Text) :
    b.apply (do insertText (extent l) s; deleteRange (extent l) (extent l + s.length)) =
      (.ok (), b) := by
  have hinsert := Buffer.run_insertText h.isBoundary s
  cases s with
  | nil =>
    have hp := h.isBoundary
    have hdelete := run_deleteRange_self hp.nonneg hp.le_length
    refine apply_of_run_ok ((run_bind_of_ok hinsert).trans ?_)
    rwa [List.length_nil, Int.natCast_zero, Int.add_zero]
  | cons c s =>
    have hsplice := h.splice (c :: s)
    have hstart := hsplice.isBoundary
    have hsplit : (b.splice (extent l) (c :: s)).Layout ((l ++ (c :: s).map .char) ++ r) := by
      rwa [List.append_assoc]
    have hstop := hsplit.isBoundary
    rw [extent_append, extent_map_char, Int.natCast_add] at hstop
    have hcut := hsplice.cut
    rw [extent_map_char] at hcut
    have hlt : (extent l : Int) < extent l + (c :: s).length := by
      rw [List.length_cons]
      omega
    have hdelete := (Buffer.run_deleteRange hstart hstop hlt).trans (run_transaction hcut)
    rw [h.cut_splice] at hdelete
    rw [if_neg (by simp), run_transaction hsplice] at hinsert
    exact apply_of_run_ok ((run_bind_of_ok hinsert).trans hdelete)

theorem apply_removeTag_insertTag (h : b.Layout (l ++ tag s :: r)) :
    b.apply (do let t ← removeTag s.id; insertTag t.toSuggestion t.position) =
      (.ok (.ofSuggestion s (extent l)),
        { b with
          tags := b.tags.filter (fun u => u.id ≠ s.id) ++ [.ofSuggestion s (extent l)]
          cursor := extent l + s.name.length
          active := b.active.filter fun id => id ≠ s.id }) := by
  have htaken := h.takeOut
  have hid : s.id ∉ Cell.ids (l ++ r) := by simpa using h.wellFormed.not_mem_ids
  have hid' := fun hmem => hid (htaken.mem_ids_iff.1 hmem)
  have hs := h.wellFormed.valid s (by simp)
  have hplace := htaken.place hs hid
  have hremove := Buffer.run_removeTag h.find?_eq (run_transaction htaken)
  have hinsert := Buffer.run_insertTag hs hid' htaken.isBoundary (run_transaction hplace)
  rw [h.place_takeOut] at hinsert
  exact apply_of_run_ok ((run_bind_of_ok hremove).trans hinsert)

end Layout

/-- After every run of edits. A tag put in and removed again leaves everything as it was, the order
of the tags and the active tag included, and the cursor where it was put in. A text put in and
deleted again leaves everything as it was. And a tag removed and put in again where it was leaves
the text and every tag as they were; only then it is the last in the order of the tags, the cursor
stands behind it, and it is no longer active. -/
theorem edits_undone (ops : List Operation) :
    let b := after ops
    (∀ (s : ValidSuggestion) p, s.val.id ∉ b.ids → b.IsBoundary p →
      b.apply (do let t ← insertTag s.val p; removeTag t.id) =
        (.ok (.ofSuggestion s.val p), { b with cursor := p })) ∧
    (∀ (s : Text) p, b.IsBoundary p →
      b.apply (do insertText p s; deleteRange p (p + s.length)) = (.ok (), b)) ∧
    ∀ t ∈ b.tags,
      b.apply (do let t ← removeTag t.id; insertTag t.toSuggestion t.position) =
        (.ok t,
          { b with
            tags := b.tags.filter (fun u => u.id ≠ t.id) ++ [t]
            cursor := t.stop
            active := b.active.filter fun id => id ≠ t.id }) := by
  intro b
  obtain ⟨cells, h⟩ := layout_after ops
  refine ⟨fun s p hid hp => ?_, fun s p hp => ?_, fun t ht => ?_⟩
  · obtain ⟨l, r, rfl, rfl⟩ := h.isBoundary_iff.1 hp
    exact h.apply_insertTag_removeTag s.property hid
  · obtain ⟨l, r, rfl, rfl⟩ := h.isBoundary_iff.1 hp
    exact h.apply_insertText_deleteRange s
  · obtain ⟨l, r, rfl, hposition⟩ := h.mem_tags_iff.1 ht
    have ht : t = .ofSuggestion t.toSuggestion (extent l) := by rw [← hposition]; rfl
    rw [ht]
    exact h.apply_removeTag_insertTag

theorem edits_undone_touching :
    let first := zeroNamed 1 "A".toList (by decide)
    let second := zeroNamed 2 "BC".toList (by decide)
    let third := zeroNamed 3 "D".toList (by decide)
    let b := after [.insertTag first 0, .insertTag second 1]
    3 ∉ b.ids ∧ b.IsBoundary 1 ∧ Tag.ofSuggestion first.val 0 ∈ b.tags ∧
      b.apply (do let t ← insertTag third.val 1; removeTag t.id) =
        (.ok (.ofSuggestion third.val 1), { b with cursor := 1 }) ∧
      b.apply (do insertText 1 "+".toList; deleteRange 1 2) = (.ok (), b) ∧
      (b.apply (do let t ← removeTag 1; insertTag t.toSuggestion t.position)).2.tags =
        b.tags.filter (fun u => u.id ≠ 1) ++ [.ofSuggestion first.val 0] := by
  intro first second third b
  have hfirst := layout_empty.perform_insertTag (l := []) (r := []) first (by simp)
  have h : b.Layout [tag first.val, tag second.val] :=
    hfirst.perform_insertTag (l := [tag first.val]) (r := []) second (by decide)
  have hid : 3 ∉ b.ids := fun hmem => absurd (h.mem_ids_iff.1 hmem) (by decide)
  have hp : b.IsBoundary 1 := h.isBoundary_iff.2 ⟨[tag first.val], [tag second.val], rfl, rfl⟩
  have hmem : Tag.ofSuggestion first.val 0 ∈ b.tags := h.mem_tags_iff.2 ⟨[], _, rfl, rfl⟩
  obtain ⟨htag, htext, hback⟩ := edits_undone [.insertTag first 0, .insertTag second 1]
  refine ⟨hid, hp, hmem, htag third 1 hid hp, htext "+".toList 1 hp, ?_⟩
  exact congrArg (fun outcome => outcome.2.tags) (hback _ hmem)

end Buffer

end TagFormula
