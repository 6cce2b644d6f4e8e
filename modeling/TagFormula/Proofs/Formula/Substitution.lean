import Mathlib.Data.List.Induction
import Mathlib.Data.List.Sort
import TagFormula.Formula.Preparation
import TagFormula.Proofs.Buffer.Operation
import TagFormula.Proofs.Buffer.Rendering

/-!
# Substitution writes the formula out

Substitution cuts the text apart at the span of one tag after the other, from the
last to the first, while the text changes its length under it. The result is what
one reads off from left to right when every variable is written by its value.

The invariant of the cuts is about a row parted in two. When the tags of the right
part have been replaced, the text is the left part as it was, names and offsets
included, followed by the right part written out (`foldlM_replaceTag`). So a value may
be longer or shorter than its name, and tags may touch: what lies to the left of
the last cut has not been moved.
-/

namespace TagFormula

open Cell

/-- The value of a variable in plain notation; there is one if the variable is valid. -/
def Suggestion.plain (s : Suggestion) : Text :=
  (Number.plainDouble? s.value).getD []

/-- A segment with a tag replaced by its value, if the value has a plain notation. -/
def Segment.plain? : Segment → Option Text
  | text _ t => some t
  | tag t => Number.plainDouble? t.value

theorem Number.plainDouble?_eq_some {x : Float} (h : Binary64.isFinite x = true) :
    ∃ t, plainDouble? x = some t := by
  rw [plainDouble?, if_pos h]
  split <;> exact ⟨_, rfl⟩

theorem Suggestion.Valid.plainDouble?_eq {s : Suggestion} (h : s.Valid) :
    Number.plainDouble? s.value = some s.plain := by
  obtain ⟨t, ht⟩ := Number.plainDouble?_eq_some h.isFinite_value
  rw [Suggestion.plain, ht, Option.getD_some]

/-! ## Tags in a mapping and in order -/

namespace Tag

/-- Filing tags with ids of their own puts each behind the others. -/
theorem foldl_file {tags : List Tag} (seen : List Tag)
    (h : ((seen ++ tags).map (·.id)).Nodup) : tags.foldl file seen = seen ++ tags := by
  induction tags generalizing seen with
  | nil => simp
  | cons t tags ih =>
      have hid : ¬ seen.any (·.id == t.id) = true := by
        simp only [List.any_eq_true, beq_iff_eq, not_exists, not_and]
        intro u hu heq
        rw [List.map_append, List.nodup_append] at h
        exact h.2.2 u.id (List.mem_map_of_mem hu) t.id (by simp) heq
      have happend : seen ++ t :: tags = (seen ++ [t]) ++ tags := by simp
      rw [List.foldl_cons, file, if_neg hid, happend]
      exact ih (seen ++ [t]) (happend ▸ h)

/-- A mapping from ids to tags that come with different ids keeps them all, in their order. -/
theorem filed_eq_self {tags : List Tag} (h : (tags.map (·.id)).Nodup) : filed tags = tags :=
  foldl_file [] h

theorem pairwise_descending (tags : List Tag) :
    (descending tags).Pairwise fun t u => u.position ≤ t.position :=
  List.pairwise_mergeSort' (Order.Preimage position (· ≥ ·)) tags

/-- However the tags of a row are listed, the descending order is the row read backwards. -/
theorem descending_eq {cells : List Cell} (hw : WellFormed cells) {p : Int} {tags : List Tag}
    (h : tags.Perm (tagsFrom p cells)) : descending tags = (tagsFrom p cells).reverse := by
  have hperm : (descending tags).Perm (tagsFrom p cells) := (List.mergeSort_perm _ _).trans h
  have hreverse := hw.eq_tagsFrom ((List.reverse_perm _).trans hperm)
    (List.pairwise_reverse.2 (pairwise_descending tags))
  rw [← hreverse, List.reverse_reverse]

end Tag

/-! ## One cut after the other -/

namespace Formula

/-- Replacing a tag between two parts of a text leaves both parts alone. -/
theorem replaceTag_append {s : Suggestion} (hs : s.Valid) (left right : Text) :
    replaceTag (left ++ (s.name ++ right)) (.ofSuggestion s left.length) =
      .ok (left ++ (s.plain ++ right)) := by
  have hvalue : Number.plainDouble? (Tag.ofSuggestion s left.length).value = some s.plain :=
    hs.plainDouble?_eq
  have hbefore : Slice.before (left ++ (s.name ++ right))
      (Tag.ofSuggestion s left.length).position = left :=
    Slice.before_append left _
  have hafter : Slice.after (left ++ (s.name ++ right))
      (Tag.ofSuggestion s left.length).stop = right := by
    have hstop : (Tag.ofSuggestion s left.length).stop = ((left ++ s.name).length : Int) := by
      rw [List.length_append, Int.natCast_add]
      rfl
    rw [hstop, ← List.append_assoc]
    exact Slice.after_append (left ++ s.name) right
  rw [replaceTag, hvalue]
  simp only [hbefore, hafter, List.append_assoc]

/-- After the tags of the right part of a row have been replaced, the left part still stands as it
was. The induction takes the cells of the right part away from their end, in the order in which
their tags are replaced; `rest` is what has been written for them. -/
theorem foldlM_replaceTag {l r : List Cell} (hvalid : ∀ s, tag s ∈ r → s.Valid) (rest : Text) :
    (tagsFrom (extent l) r).reverse.foldlM replaceTag (contents (l ++ r) ++ rest) =
      .ok (contents l ++ (filled Suggestion.plain r ++ rest)) := by
  induction r using List.reverseRecOn generalizing rest with
  | nil => simp [pure, Except.pure]
  | append_singleton r c ih =>
      have ih' := ih fun s hs => hvalid s (List.mem_append_left _ hs)
      cases c with
      | char c =>
          have htags : tagsFrom (extent l) (r ++ [char c]) = tagsFrom (extent l) r := by
            rw [tagsFrom_append, tagsFrom, tagsFrom_nil, List.append_nil]
          have htext : contents (l ++ (r ++ [char c])) ++ rest = contents (l ++ r) ++ (c :: rest) := by
            simp [content]
          rw [htags, htext, ih' (c :: rest)]
          simp [written]
      | tag s =>
          have htags : (tagsFrom (extent l) (r ++ [tag s])).reverse =
              .ofSuggestion s (contents (l ++ r)).length :: (tagsFrom (extent l) r).reverse := by
            have hoffset : (extent l + extent r : Int) = ((contents (l ++ r)).length : Int) := by
              rw [← Int.natCast_add, ← extent_append, extent]
            rw [tagsFrom_append, hoffset, tagsFrom, tagsFrom_nil, List.reverse_append,
              List.reverse_singleton, List.singleton_append]
          have htext : contents (l ++ (r ++ [tag s])) ++ rest =
              contents (l ++ r) ++ (s.name ++ rest) := by simp [content]
          have hs : s.Valid := hvalid s (List.mem_append_right _ (List.mem_singleton_self _))
          rw [htags, htext, List.foldlM_cons, replaceTag_append hs]
          refine (ih' (s.plain ++ rest)).trans ?_
          simp [written]

end Formula

/-- A list of tags that starts the tags of a row belongs to the start of the row. -/
theorem Cell.exists_append_of_tagsFrom_eq {p : Int} {cells : List Cell} {front back : List Tag}
    (h : tagsFrom p cells = front ++ back) :
    ∃ l r, cells = l ++ r ∧ tagsFrom p l = front ∧ tagsFrom (p + extent l) r = back := by
  induction cells generalizing p front with
  | nil =>
      obtain ⟨rfl, rfl⟩ := List.append_eq_nil_iff.1 h.symm
      exact ⟨[], [], rfl, rfl, rfl⟩
  | cons c cells ih =>
      cases c with
      | char c =>
          obtain ⟨l, r, rfl, rfl, rfl⟩ := ih h
          refine ⟨char c :: l, r, rfl, rfl, ?_⟩
          rw [extent_cons, width_char, Int.natCast_add, ← Int.add_assoc]
          rfl
      | tag s =>
          cases front with
          | nil => exact ⟨[], tag s :: cells, rfl, rfl, by simpa using h⟩
          | cons t front =>
              obtain ⟨ht, hrest⟩ := List.cons.inj h
              obtain ⟨l, r, rfl, hl, hr⟩ := ih hrest
              refine ⟨tag s :: l, r, rfl, ?_, ?_⟩
              · rw [tagsFrom, ht, hl]
              · rw [extent_cons, width_tag, Int.natCast_add, ← Int.add_assoc]
                exact hr

namespace Buffer

open Formula

variable {b : Buffer} {cells : List Cell}

namespace Layout

theorem nodup_ids_of_perm (h : b.Layout cells) {tags : List Tag} (hperm : tags.Perm b.tags) :
    (tags.map (·.id)).Nodup :=
  (hperm.map _).nodup_iff.2 h.consistent.nodup_ids

theorem substitute_eq (h : b.Layout cells) {tags : List Tag} (hperm : tags.Perm b.tags) :
    substitute b.text tags = .ok (b.filled Suggestion.plain) := by
  have hfold := foldlM_replaceTag (l := []) h.wellFormed.valid []
  rw [substitute, Tag.descending_eq h.wellFormed (hperm.trans h.tags_perm), h.text_eq, h.filled_eq]
  simpa using hfold

/-- Part of the way: some tags have been replaced, and the spans of the others still hold their
names. -/
theorem foldlM_replaceTag_of_descending (h : b.Layout cells) {tags done todo : List Tag}
    (hperm : tags.Perm b.tags) (heq : Tag.descending tags = done ++ todo) :
    ∃ out, done.foldlM replaceTag b.text = .ok out ∧
      ∀ t ∈ todo, Slice.between out t.position t.stop = t.name := by
  rw [Tag.descending_eq h.wellFormed (hperm.trans h.tags_perm)] at heq
  have htags : tagsFrom 0 cells = todo.reverse ++ done.reverse := by
    rw [← List.reverse_append, ← heq, List.reverse_reverse]
  obtain ⟨l, r, rfl, htodo, hdone⟩ := exists_append_of_tagsFrom_eq htags
  have hvalid : ∀ s, tag s ∈ r → s.Valid := fun s hs =>
    h.wellFormed.valid s (List.mem_append_right _ hs)
  refine ⟨contents l ++ Cell.filled Suggestion.plain r, ?_, ?_⟩
  · have hfold := foldlM_replaceTag (l := l) hvalid []
    rw [Int.zero_add] at hdone
    rw [hdone, List.reverse_reverse, List.append_nil, List.append_nil] at hfold
    rw [h.text_eq, hfold]
  · intro t ht
    have hmem : t ∈ tagsFrom 0 l := htodo ▸ List.mem_reverse.2 ht
    obtain ⟨l₁, l₂, rfl, hp⟩ := mem_tagsFrom_iff.1 hmem
    rw [Int.zero_add] at hp
    rw [contents_append, contents_cons, content, List.append_assoc, List.append_assoc, Tag.stop, hp]
    exact Slice.between_append (contents l₁) t.name _

theorem valid_of_mem_tags (h : b.Layout cells) {t : Tag} (ht : t ∈ b.tags) :
    t.toSuggestion.Valid := by
  obtain ⟨l, r, rfl, -⟩ := h.mem_tags_iff.1 ht
  exact h.wellFormed.valid _ (by simp)

end Layout

/-- A tag that is rendered is a tag of the buffer. -/
theorem mem_tags_of_mem_render {t : Tag} (h : Segment.tag t ∈ b.render) : t ∈ b.tags := by
  suffices hfrom : ∀ (last : Int) (tags : List Tag),
      Segment.tag t ∈ segmentsFrom b.text last tags → t ∈ tags from
    List.mem_mergeSort.1 (hfrom 0 b.sortedTags h)
  intro last tags hmem
  induction tags generalizing last with
  | nil =>
      rw [segmentsFrom] at hmem
      split at hmem <;> simp at hmem
  | cons u tags ih =>
      rw [segmentsFrom] at hmem
      rcases List.mem_append.1 hmem with hrun | htag
      · split at hrun <;> simp at hrun
      · rcases List.mem_cons.1 htag with heq | hrest
        · exact List.mem_cons.2 (.inl (Segment.tag.inj heq))
        · exact List.mem_cons_of_mem _ (ih _ hrest)

/-- When the variables of a row of segments are valid, every segment has a plain notation. -/
theorem mapM_plain? {segments : List Segment}
    (h : ∀ t, Segment.tag t ∈ segments → t.toSuggestion.Valid) :
    segments.mapM Segment.plain? = some (segments.map (Segment.written Suggestion.plain)) := by
  induction segments with
  | nil => rfl
  | cons segment segments ih =>
      have hhead : segment.plain? = some (segment.written Suggestion.plain) := by
        cases segment with
        | text start t => rfl
        | tag t => exact (h t (List.mem_cons_self ..)).plainDouble?_eq
      have htail := ih fun t ht => h t (List.mem_cons_of_mem _ ht)
      rw [List.mapM_cons, hhead, htail]
      rfl

/-- After every run of edits, substitution gives what the rendered segments say from left to
right, text as it is and tags by their values, whatever the order of the tags and also when they
come as a mapping. At every moment in between, the spans that are still to be replaced hold their
names. -/
theorem substitute_eq_rendering (ops : List Operation) {tags : List Tag}
    (h : tags.Perm (after ops).tags) :
    ∃ pieces, (after ops).render.mapM Segment.plain? = some pieces ∧
      substitute (after ops).text tags = .ok pieces.flatten ∧
      substitute (after ops).text (Tag.filed tags) = .ok pieces.flatten ∧
      ∀ done todo, Tag.descending tags = done ++ todo →
        ∃ out, done.foldlM replaceTag (after ops).text = .ok out ∧
          ∀ t ∈ todo, Slice.between out t.position t.stop = t.name := by
  obtain ⟨cells, hlayout⟩ := layout_after ops
  have hsub := hlayout.substitute_eq h
  have hpieces := mapM_plain? fun t ht => hlayout.valid_of_mem_tags (mem_tags_of_mem_render ht)
  refine ⟨_, hpieces, hsub, ?_, ?_⟩
  · rw [Tag.filed_eq_self (hlayout.nodup_ids_of_perm h)]
    exact hsub
  · intro done todo heq
    exact hlayout.foldlM_replaceTag_of_descending h heq

/-- A tag with a value that is longer than its name. -/
def longValue : ValidSuggestion :=
  ⟨⟨1, "a".toList, 1234⟩, (Suggestion.faults_eq_nil_iff _).1 (by decide +kernel)⟩

/-- A tag with a value that is shorter than its name. -/
def shortValue : ValidSuggestion :=
  ⟨⟨2, "Revenue".toList, -0.5⟩, (Suggestion.faults_eq_nil_iff _).1 (by decide +kernel)⟩

/-- Two tags that touch. -/
theorem layout_touching :
    (after [.insertTag longValue 0, .insertTag shortValue 1]).Layout
      [tag longValue.val, tag shortValue.val] :=
  have hlong := layout_empty.perform_insertTag (l := []) (r := []) longValue (by simp)
  hlong.perform_insertTag (l := [tag longValue.val]) (r := []) shortValue (by decide)

/-- The tags listed from right to left. -/
theorem substitute_touching :
    let b := after [.insertTag longValue 0, .insertTag shortValue 1]
    b.tags.reverse.Perm b.tags ∧ b.text = "aRevenue".toList ∧
      substitute b.text b.tags.reverse = .ok "1234-0.5".toList := by
  intro b
  have hperm := List.reverse_perm b.tags
  have hwritten : b.filled Suggestion.plain = "1234-0.5".toList := by
    rw [layout_touching.filled_eq]
    decide +kernel
  have hvalid : ∀ t, Segment.tag t ∈ b.render → t.toSuggestion.Valid := fun t ht =>
    layout_touching.valid_of_mem_tags (mem_tags_of_mem_render ht)
  obtain ⟨pieces, hpieces, hsub, -⟩ := substitute_eq_rendering _ hperm
  rw [mapM_plain? hvalid] at hpieces
  refine ⟨hperm, layout_touching.text_eq, ?_⟩
  rw [hsub, ← Option.some.inj hpieces, ← hwritten]
  rfl

end Buffer

end TagFormula
