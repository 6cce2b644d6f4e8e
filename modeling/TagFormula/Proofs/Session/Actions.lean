import TagFormula.Proofs.Session.Simulation

/-!
# Actions on cells

What a session does to its cells, followed through the edits of the buffer. A character
is put in at the cursor and the cursor set behind it, a variable comes with the next id,
and deleting looks at the cell before the cursor to tell a variable from a character.
The last statement (`Shows.performs_press`) brings the actions together: every key does
to the session what it does to the editor.
-/

namespace TagFormula

namespace Session

open Cell

namespace Shows

variable {s : Session} {e : Editor}

/-! ## Putting in -/

theorem performs_insertChar (h : s.Shows e) (c : Char) :
    Performs (insertChar c) s (e.putChar c) := by
  obtain ⟨b, hrun, hlayout, -, hactive⟩ := h.layout.run_insertText [c]
  have hput : b.Layout ((e.left ++ [char c]) ++ e.right) := by simpa using hlayout
  have hend : (extent (e.left ++ [char c]) : Int) = extent e.left + 1 := by simp
  have h₀ : (0 : Int) ≤ extent e.left + 1 := by omega
  have h₁ : (extent e.left + 1 : Int) ≤ extent ((e.left ++ [char c]) ++ e.right) := by
    rw [extent_append, Int.natCast_add]
    omega
  have hset := hput.run_setCursor h₀ h₁
  have hcursor := hput.withCursor h₀ h₁
  refine .of_bind (EStateM.run_get s) ?_
  rw [h.insertionPoint_eq]
  refine .of_bind (run_edit hrun) (.of_bind (run_edit hset) (performs_refresh ?_))
  exact { h with
    layout := hcursor
    cursor_eq := hend.symm
    active_eq := hactive.trans h.active_eq
    ids_lt := by simpa [Editor.putChar] using h.ids_lt }

theorem ids_lt_of_next (h : s.Shows e) {v : Suggestion} (hv : v.id = e.nextId) :
    ∀ id ∈ Cell.ids ((e.left ++ [tag v]) ++ e.right), id < e.nextId + 1 := by
  rw [List.append_assoc]
  exact Cell.ids_lt_of_next h.ids_lt hv

theorem performs_select (h : s.Shows e) (choice : ValidSuggestion) :
    Performs (select choice.val) s (e.select choice) := by
  let v : Suggestion := { choice.val with id := e.nextId }
  have hv : v.Valid := ⟨choice.property.name_ne_nil, choice.property.isFinite_value⟩
  have hnew : v.id ∉ Cell.ids (e.left ++ e.right) := fun hmem => Int.lt_irrefl _ (h.ids_lt _ hmem)
  obtain ⟨b, hrun, hlayout, hcursor, hactive⟩ := h.layout.run_insertTag hv hnew
  have hput : b.Layout ((e.left ++ [tag v]) ++ e.right) := by simpa using hlayout
  have hplace : ({ s with nextId := e.nextId + 1 } : Session).insertionPoint = extent e.left :=
    h.insertionPoint_eq
  refine .of_bind h.run_takeId (.of_bind (EStateM.run_get _) ?_)
  rw [hplace]
  refine .of_bind (run_edit hrun) ?_
  have hshows : Shows { s with buffer := b, nextId := e.nextId + 1 }
      { e with left := e.left ++ [tag v], nextId := e.nextId + 1 } :=
    { h with
      layout := hput
      cursor_eq := hcursor
      active_eq := hactive.trans h.active_eq
      nextId_eq := rfl
      ids_lt := h.ids_lt_of_next rfl }
  refine (hshows.performs_typeSearch []).bind fun _ s₁ h₁ => ?_
  refine (h₁.performs_log _ _ _).bind fun _ s₂ h₂ => ?_
  exact h₂.performs_refresh.bind fun _ s₃ h₃ => h₃.performs_pure _

/-! ## Taking out -/

theorem performs_removeTag (h : s.Shows e) {l r : List Cell} {v : Suggestion}
    (heq : e.left ++ e.right = l ++ tag v :: r) :
    Performs (removeTag v.id) s (e.withCells l r) := by
  have hlayout : s.buffer.Layout (l ++ tag v :: r) := heq ▸ h.layout
  obtain ⟨b, hrun, hlayout', hcursor, hactive⟩ := hlayout.run_removeTag
  have hshows : Shows { s with buffer := b } (e.withCells l r) :=
    { h with
      layout := hlayout'
      cursor_eq := hcursor
      active_eq := by rw [hactive, h.active_eq]; rfl
      ids_lt := by
        intro id hid
        refine h.ids_lt id ?_
        rw [heq]
        simp only [Editor.withCells, ids_append, ids_tag, List.mem_append, List.mem_cons] at hid ⊢
        exact hid.imp_right .inr }
  refine .of_bind (run_edit hrun) ?_
  refine (hshows.performs_log _ _ _).bind fun _ s₁ h₁ => ?_
  exact h₁.performs_refresh.bind fun _ s₂ h₂ => h₂.performs_pure _

/-- The character to the left of the cursor goes away. -/
theorem performs_deleteChar (h : s.Shows e) {l : List Cell} {c : Char}
    (hleft : e.left = l ++ [char c]) :
    Performs (do
      edit (Buffer.deleteRange (s.buffer.cursor - 1) s.buffer.cursor)
      edit (Buffer.setCursor (s.buffer.cursor - 1))
      refresh) s (e.withCells l e.right) := by
  obtain ⟨heq, hcursor, -⟩ := h.parts_at_left hleft
  have hrow : s.buffer.Layout (l ++ ([char c] ++ e.right)) := heq ▸ h.layout
  obtain ⟨b, hrun, hlayout', -, hactive⟩ := hrow.run_deleteRange
  have h₀ : (0 : Int) ≤ extent l := by omega
  have h₁ : (extent l : Int) ≤ extent (l ++ e.right) := by
    rw [extent_append]
    omega
  have hstart : s.buffer.cursor - 1 = extent l := by
    rw [width_char] at hcursor
    omega
  have hstop : s.buffer.cursor = extent l + extent [char c] := hcursor
  rw [hstart, hstop]
  refine .of_bind (run_edit hrun) (.of_bind (run_edit (hlayout'.run_setCursor h₀ h₁)) ?_)
  refine performs_refresh ?_
  exact { h with
    layout := hlayout'.withCursor h₀ h₁
    cursor_eq := rfl
    active_eq := by rw [hactive, h.active_eq]; rfl
    ids_lt := by
      intro id hid
      refine h.ids_lt id ?_
      rw [hleft]
      simpa [Editor.withCells] using hid }

/-- Without a search term the cell to the left of the cursor goes away, a variable as a
whole. -/
theorem performs_backspace (h : s.Shows e) : Performs backspace s e.backspace := by
  refine .of_bind (EStateM.run_get s) ?_
  rw [Editor.backspace, h.searchTerm_eq]
  cases hterm : e.searchTerm.isEmpty with
  | false => exact h.performs_typeSearch _
  | true =>
      rcases List.eq_nil_or_concat e.left with hleft | ⟨l, c, hleft⟩
      · have hsame : e.dropLast = e := by
          rw [Editor.dropLast, Editor.withCells, hleft, List.dropLast_nil, ← hleft]
          have hall : (e.active.filter fun id => id ∈ Cell.ids (e.left ++ e.right)) = e.active := by
            rw [← h.active_eq]
            exact h.layout.filter_active fun id hid => decide_eq_true hid
          rw [hall]
        simp only [Bool.not_true, Bool.false_eq_true, if_false, if_true, hsame]
        rw [if_pos (h.cursor_eq_zero_iff.2 hleft)]
        exact h.performs_pure ()
      · rw [List.concat_eq_append] at hleft
        obtain ⟨heq, hcursor, hne⟩ := h.parts_at_left hleft
        have hlayout := h.layout
        rw [heq] at hlayout
        have hdrop : e.dropLast = e.withCells l e.right := by
          rw [Editor.dropLast, hleft, List.dropLast_concat]
        simp only [Bool.not_true, Bool.false_eq_true, if_false, if_true, if_neg hne, hdrop]
        cases c with
        | char c =>
            rw [width_char] at hcursor
            have hat : s.buffer.cursor - 1 = extent l := by omega
            have hnone : (s.buffer.tagBeforeCursor? <|> s.buffer.tagAt? (s.buffer.cursor - 1)) =
                none := by
              rw [hlayout.tagBeforeCursor?_of_char hcursor, hat, hlayout.tagAt?_of_char]
              rfl
            rw [hnone]
            exact h.performs_deleteChar hleft
        | tag v =>
            rw [width_tag] at hcursor
            rw [hlayout.tagBeforeCursor?_of_tag hcursor]
            exact (h.performs_removeTag heq).bind fun _ s₁ h₁ => h₁.performs_pure ()

/-! ## The active variable -/

theorem performs_toggleTag (h : s.Shows e) {id : Int} (hid : id ∈ Cell.ids e.cells) :
    Performs (toggleTag id) s (e.toggle id) := by
  have hrun := h.layout.run_toggleActive hid
  refine ⟨_, _, run_edit hrun, ?_⟩
  rw [Editor.toggle, if_pos hid, h.active_eq]
  refine { h with layout := h.layout.withActive ?_, active_eq := rfl }
  intro i hi
  split at hi
  · exact absurd hi (by simp)
  · rwa [← Option.some.inj hi]

theorem toggleTag_refused (h : s.Shows e) {id : Int} (hid : id ∉ Cell.ids e.cells) :
    ∃ err, (toggleTag id).run s = .error err s := by
  have hid' : id ∉ s.buffer.ids := fun hmem => hid (h.layout.mem_ids_iff.1 hmem)
  obtain ⟨err, hrun, -⟩ := Buffer.toggleActive_refused hid'
  exact ⟨err, run_edit_error hrun⟩

theorem performs_closeTag (h : s.Shows e) : Performs closeTag s { e with active := none } := by
  refine ⟨(), _, run_edit Buffer.Layout.run_setActive_none, ?_⟩
  exact { h with layout := h.layout.withActive (by simp), active_eq := rfl }

theorem performs_removeActiveTag (h : s.Shows e) :
    Performs removeActiveTag s e.removeActive := by
  refine .of_bind (EStateM.run_get s) ?_
  rw [Editor.removeActive, h.active_eq]
  cases hactive : e.active with
  | none => exact h.performs_pure none
  | some id =>
      have hmem : id ∈ s.buffer.ids :=
        h.layout.mem_ids_iff.2 (h.layout.active_mem id (h.active_eq.trans hactive))
      obtain ⟨l, v, r, heq, rfl⟩ := h.layout.exists_tag hmem
      have haround : around v.id e.cells = (l, r) := by
        rw [Editor.cells, heq]
        exact around_append (heq ▸ h.layout.wellFormed)
      simp only [haround]
      exact (h.performs_removeTag heq).bind fun _ s₁ h₁ => h₁.performs_pure _

theorem performs_reset (h : s.Shows e) : Performs reset s e.reset := by
  have hshows : Shows { s with buffer := .empty }
      { e with left := [], right := [], active := none } :=
    { h with
      layout := Buffer.layout_empty
      cursor_eq := rfl
      active_eq := rfl
      ids_lt := by simp }
  refine .of_bind (run_edit rfl) ?_
  refine (hshows.performs_typeSearch []).bind fun _ s₁ h₁ => ?_
  exact (h₁.performs_log _ _ _).bind fun _ s₂ h₂ => h₂.performs_refresh

/-! ## Keys -/

theorem performs_press (h : s.Shows e) (key : Key) : Performs (press key) s (e.press key) := by
  cases key with
  | operator c =>
      refine (h.performs_insertChar c).bind fun _ s₁ h₁ => ?_
      exact h₁.performs_openSearch.bind fun _ s₂ h₂ => h₂.performs_pure true
  | digit c => exact (h.performs_insertChar c).bind fun _ s₁ h₁ => h₁.performs_pure true
  | backspace => exact h.performs_backspace.bind fun _ s₁ h₁ => h₁.performs_pure true
  | left => exact h.performs_moveLeft.bind fun _ s₁ h₁ => h₁.performs_pure true
  | right => exact h.performs_moveRight.bind fun _ s₁ h₁ => h₁.performs_pure true
  | home => exact h.performs_moveToStart.bind fun _ s₁ h₁ => h₁.performs_pure true
  | toEnd => exact h.performs_moveToEnd.bind fun _ s₁ h₁ => h₁.performs_pure true
  | enter =>
      refine .of_bind (EStateM.run_get s) ?_
      rw [h.suggestions_eq, Editor.press]
      cases e.suggestions with
      | nil => exact h.performs_pure true
      | cons choice rest =>
          exact (h.performs_select choice).bind fun _ s₁ h₁ => h₁.performs_pure true
  | escape => exact h.performs_hideSuggestions.bind fun _ s₁ h₁ => h₁.performs_pure true
  | character c =>
      refine .of_bind (EStateM.run_get s) ?_
      rw [h.searchTerm_eq]
      exact (h.performs_typeSearch _).bind fun _ s₁ h₁ => h₁.performs_pure true
  | other => exact h.performs_pure false

end Shows

end Session

end TagFormula
