import TagFormula.Proofs.Buffer.Edits

/-!
# Tags around a joint

The lookups of a buffer ask for a tag that covers a character, or that ends at the
cursor. In a laid out buffer at most one tag answers such a question, and which one
it is can be seen from the cells next to a joint: a lookup finds the cell if it is a
variable, and nothing if it is a character.
-/

namespace TagFormula

namespace Buffer

open Cell

theorem tagAt?_some {b : Buffer} {p : Int} {t : Tag} (h : b.tagAt? p = some t) :
    t ∈ b.tags ∧ t.position ≤ p ∧ p < t.stop := by
  refine ⟨List.mem_of_find?_eq_some h, ?_⟩
  simpa using List.find?_some h

theorem tagAt?_eq_none {b : Buffer} {p : Int}
    (h : ∀ t ∈ b.tags, ¬ (t.position ≤ p ∧ p < t.stop)) : b.tagAt? p = none := by
  rw [tagAt?, List.find?_eq_none]
  intro t ht hp
  exact h t ht (by simpa using hp)

theorem foldl_rightmost_mem (t : Tag) (tags : List Tag) :
    tags.foldl rightmost t ∈ t :: tags := by
  induction tags generalizing t with
  | nil => simp
  | cons u tags ih =>
      have hmem := ih (rightmost t u)
      rw [List.foldl_cons]
      have hpick : rightmost t u = t ∨ rightmost t u = u := by
        unfold rightmost
        split
        · exact .inr rfl
        · exact .inl rfl
      rcases List.mem_cons.1 hmem with heq | htail
      · rw [heq]
        rcases hpick with h | h <;> simp [h]
      · exact List.mem_cons_of_mem _ (List.mem_cons_of_mem _ htail)

theorem tagBeforeCursor?_some {b : Buffer} {t : Tag} (h : b.tagBeforeCursor? = some t) :
    t ∈ b.tags ∧ t.stop = b.cursor := by
  have hmem : t ∈ b.tags.filter fun t => t.stop == b.cursor := by
    unfold tagBeforeCursor? at h
    split at h
    · exact absurd h (by simp)
    · next u rest heq =>
        rw [heq, ← Option.some.inj h]
        exact foldl_rightmost_mem u rest
  simpa using hmem

theorem tagBeforeCursor?_eq_none {b : Buffer} (h : ∀ t ∈ b.tags, t.stop ≠ b.cursor) :
    b.tagBeforeCursor? = none := by
  have hnil : (b.tags.filter fun t => t.stop == b.cursor) = [] := by
    rw [List.filter_eq_nil_iff]
    intro t ht
    simpa using h t ht
  rw [tagBeforeCursor?, hnil]

theorem exists_tagBeforeCursor? {b : Buffer} {t : Tag} (ht : t ∈ b.tags)
    (hstop : t.stop = b.cursor) : ∃ u, b.tagBeforeCursor? = some u := by
  have hmem : t ∈ b.tags.filter fun t => t.stop == b.cursor := by
    simpa using ⟨ht, hstop⟩
  unfold tagBeforeCursor?
  split
  · next heq => rw [heq] at hmem; exact absurd hmem (by simp)
  · exact ⟨_, rfl⟩

namespace Layout

variable {b : Buffer} {l r : List Cell} {s : Suggestion}

theorem mem_tags (h : b.Layout (l ++ tag s :: r)) :
    Tag.ofSuggestion s (extent l) ∈ b.tags :=
  h.mem_tags_iff.2 ⟨l, r, rfl, rfl⟩

/-- Behind a joint that stands before a character no tag starts or goes on. -/
theorem bounds_of_char {c : Char} (h : b.Layout (l ++ char c :: r)) {t : Tag}
    (ht : t ∈ b.tags) : t.stop ≤ extent l ∨ extent l + 1 ≤ t.position := by
  rw [h.tags_perm.mem_iff, tagsFrom_append, List.mem_append, tagsFrom, Int.zero_add] at ht
  rcases ht with ht | ht
  · have := (bounds_of_mem_tagsFrom ht).2
    exact .inl (by omega)
  · exact .inr (bounds_of_mem_tagsFrom ht).1

theorem tagAt?_of_tag (h : b.Layout (l ++ tag s :: r)) {p : Int} (h₀ : extent l ≤ p)
    (h₁ : p < extent l + s.name.length) : b.tagAt? p = some (.ofSuggestion s (extent l)) := by
  have hcover : (Tag.ofSuggestion s (extent l)).position ≤ p ∧
      p < (Tag.ofSuggestion s (extent l)).stop := ⟨h₀, h₁⟩
  cases hfind : b.tagAt? p with
  | none =>
      rw [tagAt?, List.find?_eq_none] at hfind
      exact absurd (by simpa using hcover) (hfind _ h.mem_tags)
  | some u =>
      obtain ⟨hu, hup, hpu⟩ := tagAt?_some hfind
      rw [h.tag_eq hu h.mem_tags (by omega) (by omega)]

theorem tagAt?_of_char {c : Char} (h : b.Layout (l ++ char c :: r)) :
    b.tagAt? (extent l) = none := by
  refine tagAt?_eq_none fun t ht hp => ?_
  rcases h.bounds_of_char ht with hstop | hpos <;> omega

/-- With the cursor behind a variable the tag that ends there is found. -/
theorem tagBeforeCursor?_of_tag (h : b.Layout (l ++ tag s :: r))
    (hcursor : b.cursor = extent l + s.name.length) :
    b.tagBeforeCursor? = some (.ofSuggestion s (extent l)) := by
  have hstop : (Tag.ofSuggestion s (extent l)).stop = b.cursor := hcursor.symm
  obtain ⟨u, hfind⟩ := exists_tagBeforeCursor? h.mem_tags hstop
  obtain ⟨hu, hustop⟩ := tagBeforeCursor?_some hfind
  have hlt := h.position_lt_stop hu
  have hlt' := h.position_lt_stop h.mem_tags
  rw [hfind, h.tag_eq hu h.mem_tags (by omega) (by omega)]

theorem tagBeforeCursor?_of_char {c : Char} (h : b.Layout (l ++ char c :: r))
    (hcursor : b.cursor = extent l + 1) : b.tagBeforeCursor? = none := by
  refine tagBeforeCursor?_eq_none fun t ht hstop => ?_
  have hlt := h.position_lt_stop ht
  rcases h.bounds_of_char ht with hle | hle <;> omega

end Layout

end Buffer

end TagFormula
