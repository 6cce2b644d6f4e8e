import TagFormula.Proofs.Buffer.Edits

/-!
# Runs of operations

An operation is a call of one of the edits with any arguments; only a tag is put
in for a suggestion that has been judged valid before. A run starts with the empty
buffer and goes on whether an operation succeeds or is refused.

On a laid out buffer an operation either is refused because of its arguments, or
succeeds and leaves a laid out buffer (`Layout.keepsLayout_edit`). Hence every buffer of a
run is laid out, and its transactions never have to be taken back.
-/

namespace TagFormula

/-- A suggestion with a name and a finite value. -/
abbrev ValidSuggestion := { s : Suggestion // s.Valid }

namespace Buffer

open Cell

/-- A variable with the value zero. -/
def zeroNamed (id : Int) (name : Text) (h : name ≠ []) : ValidSuggestion :=
  have hzero : Binary64.isFinite 0 = true := by decide +kernel
  ⟨⟨id, name, 0⟩, h, hzero⟩

/-- A call of an edit. -/
inductive Operation where
  | insertText (offset : Int) (s : Text)
  | deleteRange (start stop : Int)
  | insertTag (s : ValidSuggestion) (offset : Int)
  | removeTag (id : Int)
  | setCursor (offset : Int)
  | setActive (id : Option Int)
  | toggleActive (id : Int)
  | reset

namespace Operation

/-- The edit of an operation, without the value that it returns. -/
def edit : Operation → Edit Unit
  | insertText offset s => Buffer.insertText offset s
  | deleteRange start stop => Buffer.deleteRange start stop
  | insertTag s offset => do let _ ← Buffer.insertTag s.val offset; return ()
  | removeTag id => do let _ ← Buffer.removeTag id; return ()
  | setCursor offset => Buffer.setCursor offset
  | setActive id => Buffer.setActive id
  | toggleActive id => do let _ ← Buffer.toggleActive id; return ()
  | reset => Buffer.reset

end Operation

/-- The buffer after an operation, whether it succeeds or is refused. -/
def perform (b : Buffer) (op : Operation) : Buffer :=
  (b.apply op.edit).2

/-- The buffer after a run of operations that starts with the empty buffer. -/
def after (ops : List Operation) : Buffer :=
  ops.foldl perform empty

/-! ## One operation -/

/-- An edit is refused because of its arguments, or succeeds and leaves a laid out
buffer. -/
def KeepsLayout {α : Type} (edit : Edit α) (b : Buffer) : Prop :=
  Refused edit b ∨ ∃ x b' cells, edit.run b = .ok x b' ∧ b'.Layout cells

theorem KeepsLayout.forget {α : Type} {edit : Edit α} {b : Buffer} (h : KeepsLayout edit b) :
    KeepsLayout (do let _ ← edit; return ()) b := by
  rcases h with hrefused | ⟨x, b', cells, hrun, hlayout⟩
  · exact .inl (hrefused.bind _)
  · exact .inr ⟨(), b', cells, run_bind_of_ok hrun, hlayout⟩

namespace Layout

variable {b : Buffer} {cells : List Cell}

/-- A range between two boundaries is a range between two joints. -/
theorem exists_range (h : b.Layout cells) {p q : Int} (hp : b.IsBoundary p)
    (hq : b.IsBoundary q) (hpq : p ≤ q) :
    ∃ l m r, cells = l ++ (m ++ r) ∧ (extent l : Int) = p ∧ (extent l + extent m : Int) = q := by
  obtain ⟨l, r, hlr, rfl⟩ := h.isBoundary_iff.1 hp
  obtain ⟨l', r', hlr', rfl⟩ := h.isBoundary_iff.1 hq
  have hw : WellFormed (l ++ r) := hlr ▸ h.wellFormed
  obtain ⟨m, rfl, rfl⟩ := hw.exists_middle (hlr ▸ hlr') (by omega)
  exact ⟨l, m, r', hlr, rfl, by rw [extent_append, Int.natCast_add]⟩

/-- The row parts at the tag with an id. -/
theorem exists_tag (h : b.Layout cells) {id : Int} (hid : id ∈ b.ids) :
    ∃ l s r, cells = l ++ tag s :: r ∧ s.id = id := by
  obtain ⟨s, hs, hid⟩ := Cell.mem_ids_iff.1 (h.mem_ids_iff.1 hid)
  obtain ⟨l, r, hlr⟩ := List.append_of_mem hs
  exact ⟨l, s, r, hlr, hid⟩

theorem keepsLayout_insertText (h : b.Layout cells) (p : Int) (s : Text) :
    KeepsLayout (insertText p s) b := by
  by_cases hp : b.IsBoundary p
  · obtain ⟨l, r, rfl, rfl⟩ := h.isBoundary_iff.1 hp
    obtain ⟨b', hrun, hlayout, -⟩ := h.run_insertText s
    exact .inr ⟨(), b', _, hrun, hlayout⟩
  · exact .inl (insertText_refused hp s)

theorem keepsLayout_insertTag (h : b.Layout cells) (s : Suggestion) (p : Int) :
    KeepsLayout (insertTag s p) b := by
  by_cases hp : s.Valid ∧ s.id ∉ b.ids ∧ b.IsBoundary p
  · obtain ⟨hs, hid, hp⟩ := hp
    obtain ⟨l, r, rfl, rfl⟩ := h.isBoundary_iff.1 hp
    have hid' : s.id ∉ Cell.ids (l ++ r) := fun hmem => hid (h.mem_ids_iff.2 hmem)
    obtain ⟨b', hrun, hlayout, -⟩ := h.run_insertTag hs hid'
    exact .inr ⟨_, b', _, hrun, hlayout⟩
  · exact .inl (insertTag_refused hp)

theorem keepsLayout_deleteRange (h : b.Layout cells) (p q : Int) :
    KeepsLayout (deleteRange p q) b := by
  by_cases hpq : p ≤ q ∧ 0 ≤ p ∧ q ≤ b.length ∧ (p = q ∨ b.IsBoundary p ∧ b.IsBoundary q)
  · obtain ⟨hle, h₀, h₁, heq | ⟨hp, hq⟩⟩ := hpq
    · subst heq
      exact .inr ⟨(), b, cells, run_deleteRange_self h₀ h₁, h⟩
    · obtain ⟨l, m, r, rfl, rfl, rfl⟩ := h.exists_range hp hq hle
      obtain ⟨b', hrun, hlayout, -⟩ := h.run_deleteRange
      exact .inr ⟨(), b', _, hrun, hlayout⟩
  · exact .inl (deleteRange_refused hpq)

theorem keepsLayout_removeTag (h : b.Layout cells) (id : Int) :
    KeepsLayout (removeTag id) b := by
  by_cases hid : id ∈ b.ids
  · obtain ⟨l, s, r, rfl, rfl⟩ := h.exists_tag hid
    obtain ⟨b', hrun, hlayout, -⟩ := h.run_removeTag
    exact .inr ⟨_, b', _, hrun, hlayout⟩
  · exact .inl (removeTag_refused hid)

theorem keepsLayout_setCursor (h : b.Layout cells) (p : Int) :
    KeepsLayout (setCursor p) b := by
  by_cases hp : 0 ≤ p ∧ p ≤ b.length
  · rw [h.length_eq] at hp
    exact .inr ⟨(), _, cells, h.run_setCursor hp.1 hp.2, h.withCursor hp.1 hp.2⟩
  · exact .inl (setCursor_refused hp)

theorem keepsLayout_setActive (h : b.Layout cells) (id : Option Int) :
    KeepsLayout (setActive id) b := by
  cases id with
  | none => exact .inr ⟨(), _, cells, run_setActive_none, h.withActive (by simp)⟩
  | some id =>
      by_cases hid : id ∈ b.ids
      · have hid' := h.mem_ids_iff.1 hid
        refine .inr ⟨(), _, cells, h.run_setActive hid', h.withActive ?_⟩
        intro i hi
        rwa [← Option.some.inj hi]
      · exact .inl ((getTag_refused hid).bind _)

theorem keepsLayout_toggleActive (h : b.Layout cells) (id : Int) :
    KeepsLayout (toggleActive id) b := by
  by_cases hid : id ∈ b.ids
  · have hid' := h.mem_ids_iff.1 hid
    refine .inr ⟨_, _, cells, h.run_toggleActive hid', h.withActive ?_⟩
    intro i hi
    split at hi
    · exact absurd hi (by simp)
    · rwa [← Option.some.inj hi]
  · exact .inl (toggleActive_refused hid)

theorem keepsLayout_edit (h : b.Layout cells) (op : Operation) : KeepsLayout op.edit b := by
  cases op with
  | insertText p s => exact h.keepsLayout_insertText p s
  | deleteRange p q => exact h.keepsLayout_deleteRange p q
  | insertTag s p => exact (h.keepsLayout_insertTag s.val p).forget
  | removeTag id => exact (h.keepsLayout_removeTag id).forget
  | setCursor p => exact h.keepsLayout_setCursor p
  | setActive id => exact h.keepsLayout_setActive id
  | toggleActive id => exact (h.keepsLayout_toggleActive id).forget
  | reset => exact .inr ⟨(), Buffer.empty, [], rfl, layout_empty⟩

theorem perform (h : b.Layout cells) (op : Operation) :
    ∃ cells', (b.perform op).Layout cells' := by
  rcases h.keepsLayout_edit op with ⟨e, hrun, -⟩ | ⟨x, b', cells', hrun, hlayout⟩
  · exact ⟨cells, by rw [Buffer.perform, apply_of_run_error hrun]; exact h⟩
  · exact ⟨cells', by rw [Buffer.perform, apply_of_run_ok hrun]; exact hlayout⟩

/-- Text put in at a joint of the row. -/
theorem perform_insertText {l r : List Cell} (h : b.Layout (l ++ r)) (s : Text) :
    (b.perform (.insertText (extent l) s)).Layout (l ++ (s.map char ++ r)) := by
  obtain ⟨b', hrun, hlayout, -⟩ := h.run_insertText s
  have hrun' : (Operation.insertText (extent l) s).edit.run b = .ok () b' := hrun
  have hb : b.perform (.insertText (extent l) s) = b' := by
    rw [Buffer.perform, apply_of_run_ok hrun']
  rwa [hb]

/-- A variable with an id of its own put in at a joint of the row. -/
theorem perform_insertTag_eq {l r : List Cell} (h : b.Layout (l ++ r)) (s : ValidSuggestion)
    (hid : s.val.id ∉ Cell.ids (l ++ r)) :
    b.perform (.insertTag s (extent l)) = b.place (.ofSuggestion s.val (extent l)) := by
  have hid' : s.val.id ∉ b.ids := fun hmem => hid (h.mem_ids_iff.1 hmem)
  have hrun := Buffer.run_insertTag s.property hid' h.isBoundary
    (run_transaction (h.place s.property hid))
  have hrun' : (Operation.insertTag s (extent l)).edit.run b =
      .ok () (b.place (.ofSuggestion s.val (extent l))) := run_bind_of_ok hrun
  rw [Buffer.perform, apply_of_run_ok hrun']

theorem perform_insertTag {l r : List Cell} (h : b.Layout (l ++ r)) (s : ValidSuggestion)
    (hid : s.val.id ∉ Cell.ids (l ++ r)) :
    (b.perform (.insertTag s (extent l))).Layout (l ++ tag s.val :: r) := by
  rw [h.perform_insertTag_eq s hid]
  exact h.place s.property hid

theorem foldl_perform (h : b.Layout cells) (ops : List Operation) :
    ∃ cells', (ops.foldl Buffer.perform b).Layout cells' := by
  induction ops generalizing b cells with
  | nil => exact ⟨cells, h⟩
  | cons op ops ih =>
      obtain ⟨cells', h'⟩ := h.perform op
      exact ih h'

end Layout

/-! ## Runs -/

/-- Every buffer of a run is laid out. -/
theorem layout_after (ops : List Operation) : ∃ cells, (after ops).Layout cells :=
  layout_empty.foldl_perform ops

/-- After every run of operations the parts of the buffer fit together and every tag is
found under its id. So the check passes, no operation is ever refused for an
inconsistency, and the active tag can always be asked for. -/
theorem consistent_after (ops : List Operation) :
    (after ops).Consistent ∧ (∀ t ∈ (after ops).tags, (after ops).find? t.id = some t) ∧
      (after ops).check = .ok () ∧
      (∀ op fault, ((after ops).apply (Operation.edit op)).1 ≠ .error (.inconsistent fault)) ∧
      ∃ t : Option Tag, (after ops).apply activeTag = (.ok t, after ops) ∧
        t.map (·.id) = (after ops).active := by
  obtain ⟨cells, h⟩ := layout_after ops
  refine ⟨h.consistent, ?_, h.check_eq, ?_, ?_⟩
  · intro t ht
    obtain ⟨l, r, rfl, hp⟩ := h.mem_tags_iff.1 ht
    rw [h.find?_eq, ← hp]
    rfl
  · intro op fault
    rcases h.keepsLayout_edit op with ⟨e, hrun, hne⟩ | ⟨x, b', cells', hrun, -⟩
    · rw [apply_of_run_error hrun]
      exact fun heq => hne fault (Except.error.inj heq)
    · rw [apply_of_run_ok hrun]
      exact fun heq => nomatch heq
  · obtain ⟨t, hrun, hid⟩ := h.run_activeTag
    exact ⟨t, apply_of_run_ok hrun, hid⟩

end Buffer

end TagFormula
