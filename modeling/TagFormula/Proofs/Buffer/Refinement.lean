import TagFormula.Proofs.Buffer.Operation

/-!
# Edits as edits of a row of cells

The buffer of a run behaves like a plain list of cells. An insertion puts its cells
in at the joint that it names, a deletion takes out the cells between two joints, and
a removal takes out one cell; all other cells stay as they are and where they are. It
is also said exactly when each edit succeeds: an offset has to be a joint, and an id
has to be free, or has to be there.

The joint that an offset names is unique, since every cell has at least one
character. So the relations below leave no choice in what the row becomes.
-/

namespace TagFormula

namespace Cell

/-- The row has become longer by the cells `m` at an offset. -/
def Inserts (m : List Cell) (p : Int) (before after : List Cell) : Prop :=
  ∃ l r, before = l ++ r ∧ (extent l : Int) = p ∧ after = l ++ (m ++ r)

/-- The row has lost the cells between two offsets. -/
def Deletes (p q : Int) (before after : List Cell) : Prop :=
  ∃ l m r, before = l ++ (m ++ r) ∧ (extent l : Int) = p ∧ (extent l + extent m : Int) = q ∧
    after = l ++ r

/-- The row has lost the variable with an id. -/
def Removes (id : Int) (before after : List Cell) : Prop :=
  ∃ l s r, before = l ++ tag s :: r ∧ s.id = id ∧ after = l ++ r

end Cell

namespace Buffer

open Cell

/-- An edit succeeds exactly when it is allowed, and then changes the cells as a
relation says; the active tag stays active as long as its cell is there. -/
structure ActsOnCells {α : Type} (edit : Edit α) (b : Buffer) (allowed : Prop)
    (change : List Cell → List Cell → Prop) : Prop where
  succeeds_iff : (∃ x b', b.apply edit = (.ok x, b')) ↔ allowed
  cells_change : ∀ x b', b.apply edit = (.ok x, b') → change b.cells b'.cells
  active_eq : ∀ x b', b.apply edit = (.ok x, b') →
    b'.active = b.active.filter fun id => id ∈ Cell.ids b'.cells

theorem ActsOnCells.of_refused {α : Type} {edit : Edit α} {b : Buffer} {allowed : Prop}
    {change : List Cell → List Cell → Prop} (h : Refused edit b) (hnot : ¬ allowed) :
    ActsOnCells edit b allowed change := by
  obtain ⟨e, hrun, -⟩ := h
  have hno : ∀ x b', b.apply edit ≠ (.ok x, b') := by
    intro x b' heq
    rw [apply_of_run_error hrun] at heq
    exact nomatch heq
  exact ⟨⟨fun ⟨x, b', heq⟩ => absurd heq (hno x b'), fun h => absurd h hnot⟩,
    fun x b' heq => absurd heq (hno x b'), fun x b' heq => absurd heq (hno x b')⟩

theorem ActsOnCells.of_run {α : Type} {edit : Edit α} {b b' : Buffer} {x : α}
    {allowed : Prop} {change : List Cell → List Cell → Prop} (h : edit.run b = .ok x b')
    (hallowed : allowed) (hchange : change b.cells b'.cells)
    (hactive : b'.active = b.active.filter fun id => id ∈ Cell.ids b'.cells) :
    ActsOnCells edit b allowed change := by
  have honly : ∀ y c, b.apply edit = (.ok y, c) → c = b' := by
    intro y c heq
    rw [apply_of_run_ok h] at heq
    exact (Prod.mk.inj heq).2.symm
  refine ⟨⟨fun _ => hallowed, fun _ => ⟨x, b', apply_of_run_ok h⟩⟩, ?_, ?_⟩
  · intro y c heq
    rwa [honly y c heq]
  · intro y c heq
    rwa [honly y c heq]

namespace Layout

variable {b : Buffer} {cells : List Cell}

theorem acts_insertText (h : b.Layout cells) (p : Int) (s : Text) :
    ActsOnCells (insertText p s) b (b.IsBoundary p) (Inserts (s.map .char) p) := by
  by_cases hp : b.IsBoundary p
  · obtain ⟨l, r, rfl, rfl⟩ := h.isBoundary_iff.1 hp
    obtain ⟨b', hrun, hlayout, -, hactive⟩ := h.run_insertText s
    refine .of_run hrun hp ?_ ?_
    · rw [h.cells_eq, hlayout.cells_eq]
      exact ⟨l, r, rfl, rfl, rfl⟩
    · rw [hactive, hlayout.cells_eq, h.filter_active]
      intro id hid
      simpa using hid
  · exact .of_refused (insertText_refused hp s) hp

theorem acts_insertTag (h : b.Layout cells) (s : ValidSuggestion) (p : Int) :
    ActsOnCells (insertTag s.val p) b (s.val.id ∉ b.ids ∧ b.IsBoundary p)
      (Inserts [.tag s.val] p) := by
  by_cases hp : s.val.id ∉ b.ids ∧ b.IsBoundary p
  · obtain ⟨l, r, rfl, rfl⟩ := h.isBoundary_iff.1 hp.2
    have hid : s.val.id ∉ Cell.ids (l ++ r) := fun hmem => hp.1 (h.mem_ids_iff.2 hmem)
    obtain ⟨b', hrun, hlayout, -, hactive⟩ := h.run_insertTag s.property hid
    refine .of_run hrun hp ?_ ?_
    · rw [h.cells_eq, hlayout.cells_eq]
      exact ⟨l, r, rfl, rfl, rfl⟩
    · rw [hactive, hlayout.cells_eq, h.filter_active]
      intro id hid
      rcases List.mem_append.1 (ids_append l r ▸ hid) with hl | hr
      · simp [hl]
      · simp [hr]
  · exact .of_refused (insertTag_refused fun h => hp h.2) hp

theorem acts_deleteRange (h : b.Layout cells) (p q : Int) :
    ActsOnCells (deleteRange p q) b
      (p ≤ q ∧ 0 ≤ p ∧ q ≤ b.length ∧ (p = q ∨ b.IsBoundary p ∧ b.IsBoundary q))
      fun before after => p = q ∧ after = before ∨ Deletes p q before after := by
  by_cases hpq : p ≤ q ∧ 0 ≤ p ∧ q ≤ b.length ∧ (p = q ∨ b.IsBoundary p ∧ b.IsBoundary q)
  · obtain ⟨hle, h₀, h₁, heq | ⟨hp, hq⟩⟩ := id hpq
    · subst heq
      refine .of_run (run_deleteRange_self h₀ h₁) hpq (.inl ⟨rfl, rfl⟩) ?_
      rw [h.cells_eq, h.filter_active fun id hid => decide_eq_true hid]
    · obtain ⟨l, m, r, rfl, rfl, rfl⟩ := h.exists_range hp hq hle
      obtain ⟨b', hrun, hlayout, -, hactive⟩ := h.run_deleteRange
      refine .of_run hrun hpq (.inr ?_) ?_
      · rw [h.cells_eq, hlayout.cells_eq]
        exact ⟨l, m, r, rfl, rfl, rfl, rfl⟩
      · rw [hactive, hlayout.cells_eq]
  · exact .of_refused (deleteRange_refused hpq) hpq

theorem acts_removeTag (h : b.Layout cells) (id : Int) :
    ActsOnCells (removeTag id) b (id ∈ b.ids) (Removes id) := by
  by_cases hid : id ∈ b.ids
  · obtain ⟨l, s, r, rfl, rfl⟩ := h.exists_tag hid
    obtain ⟨b', hrun, hlayout, -, hactive⟩ := h.run_removeTag
    refine .of_run hrun hid ?_ ?_
    · rw [h.cells_eq, hlayout.cells_eq]
      exact ⟨l, s, r, rfl, rfl, rfl⟩
    · rw [hactive, hlayout.cells_eq]
  · exact .of_refused (removeTag_refused hid) hid

end Layout

/-- The buffer of a run reads as a row of cells that it is the layout of. On this row an
insertion, a deletion and a removal act as edits of a list, and they succeed exactly
when their offsets are boundaries and their ids are free, or are there. -/
theorem edits_act_on_cells (ops : List Operation) :
    (after ops).Layout (after ops).cells ∧
      (∀ p s, ActsOnCells (insertText p s) (after ops) ((after ops).IsBoundary p)
        (Inserts (s.map .char) p)) ∧
      (∀ (s : ValidSuggestion) p, ActsOnCells (insertTag s.val p) (after ops)
        (s.val.id ∉ (after ops).ids ∧ (after ops).IsBoundary p) (Inserts [.tag s.val] p)) ∧
      (∀ p q, ActsOnCells (deleteRange p q) (after ops)
        (p ≤ q ∧ 0 ≤ p ∧ q ≤ (after ops).length ∧
          (p = q ∨ (after ops).IsBoundary p ∧ (after ops).IsBoundary q))
        fun before after => p = q ∧ after = before ∨ Deletes p q before after) ∧
      ∀ id, ActsOnCells (removeTag id) (after ops) (id ∈ (after ops).ids) (Removes id) := by
  obtain ⟨cells, h⟩ := layout_after ops
  refine ⟨?_, h.acts_insertText, h.acts_insertTag, h.acts_deleteRange, h.acts_removeTag⟩
  rw [h.cells_eq]
  exact h

end Buffer

end TagFormula
