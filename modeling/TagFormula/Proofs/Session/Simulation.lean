import TagFormula.Session.Editing
import TagFormula.Proofs.Buffer.Lookup
import TagFormula.Proofs.Session.Editor

/-!
# Sessions that show an editor

`Shows s e` says that a session shows an editor: its buffer is laid out as the row
of the editor, its cursor stands where the cells to the left end, and the search is
in the same state. The cursor is thus always at a joint of the row, which is why it
is also the insertion point.

`Performs action s e` says that an action of the session goes through and that the
session then shows `e`. There is one statement of this kind for each action. In each
the row is parted at the cell that the action is about, and the edits of the buffer
are followed by the statements about laid out buffers. The actions that leave the cells
as they are come here: those that concern the search, and those that move the cursor.
-/

namespace TagFormula

namespace Session

open Cell

/-- A session shows an editor. -/
structure Shows (s : Session) (e : Editor) : Prop where
  layout : s.buffer.Layout (e.left ++ e.right)
  cursor_eq : s.buffer.cursor = extent e.left
  active_eq : s.buffer.active = e.active
  source_eq : s.source = fun term => (e.source term).map Subtype.val
  limit_eq : s.limit = e.limit
  searchTerm_eq : s.searchTerm = e.searchTerm
  showsSuggestions_eq : s.showsSuggestions = e.showsSuggestions
  nextId_eq : s.nextId = e.nextId
  ids_lt : ∀ id ∈ Cell.ids (e.left ++ e.right), id < e.nextId

/-- An action succeeds, and the session has a property afterwards. -/
def Returns {α : Type} (action : Action α) (s : Session) (P : Session → Prop) : Prop :=
  ∃ x s', action.run s = .ok x s' ∧ P s'

namespace Returns

variable {α β : Type} {P Q : Session → Prop} {s : Session}

theorem pure (h : P s) (x : α) : Returns (Pure.pure x) s P :=
  ⟨x, s, rfl, h⟩

theorem of_bind {action : Action α} {next : α → Action β} {s' : Session} {x : α}
    (h : action.run s = .ok x s') (hnext : Returns (next x) s' P) :
    Returns (action >>= next) s P := by
  obtain ⟨y, s'', hrun, hP⟩ := hnext
  exact ⟨y, s'', by rw [run_bind_of_ok h, hrun], hP⟩

theorem bind {action : Action α} {next : α → Action β} (h : Returns action s P)
    (hnext : ∀ x s', P s' → Returns (next x) s' Q) : Returns (action >>= next) s Q := by
  obtain ⟨x, s', hrun, hP⟩ := h
  exact of_bind hrun (hnext x s' hP)

end Returns

/-- An action succeeds, and the session shows an editor afterwards. -/
def Performs {α : Type} (action : Action α) (s : Session) (e : Editor) : Prop :=
  ∃ x s', action.run s = .ok x s' ∧ s'.Shows e

theorem Performs.bind {α β : Type} {action : Action α} {next : α → Action β} {s : Session}
    {e e' : Editor} (h : Performs action s e)
    (hnext : ∀ x s', s'.Shows e → Performs (next x) s' e') :
    Performs (action >>= next) s e' :=
  Returns.bind h hnext

theorem Performs.of_bind {α β : Type} {action : Action α} {next : α → Action β}
    {s s' : Session} {e : Editor} {x : α} (h : action.run s = .ok x s')
    (hnext : Performs (next x) s' e) : Performs (action >>= next) s e :=
  Returns.of_bind h hnext

theorem Shows.performs_pure {α : Type} {s : Session} {e : Editor} (h : s.Shows e) (x : α) :
    Performs (pure x) s e :=
  Returns.pure h x

theorem run_edit {α : Type} {change : Buffer.Edit α} {s : Session} {b : Buffer} {x : α}
    (h : change.run s.buffer = .ok x b) : (edit change).run s = .ok x { s with buffer := b } := by
  have h' : change s.buffer = .ok x b := h
  rw [EStateM.run, edit, h']

theorem run_edit_error {α : Type} {change : Buffer.Edit α} {s : Session} {err : BufferError}
    (h : change.run s.buffer = .error err s.buffer) : (edit change).run s = .error err s := by
  have h' : change s.buffer = .error err s.buffer := h
  rw [EStateM.run, edit, h']

/-- An evaluation changes the result, the journal and the outlet and nothing else. -/
theorem exists_refreshed (s : Session) : ∃ result journal outlet,
    s.refreshed = { s with result := result, journal := journal, outlet := outlet } := by
  unfold refreshed
  dsimp only
  split <;> exact ⟨_, _, _, rfl⟩

theorem run_insertChar {s : Session} {c : Char} {b b' : Buffer}
    (hinsert : (Buffer.insertText s.insertionPoint [c]).run s.buffer = .ok () b)
    (hset : (Buffer.setCursor (s.insertionPoint + 1)).run b = .ok () b') :
    (insertChar c).run s = .ok () { s with buffer := b' }.refreshed := by
  rw [insertChar, run_bind_of_ok (EStateM.run_get s), run_bind_of_ok (run_edit hinsert),
    run_bind_of_ok (run_edit hset)]
  rfl

theorem run_select {s : Session} {choice : Suggestion} {t : Tag} {b : Buffer}
    (h : (Buffer.insertTag { choice with id := freeId s.buffer.ids s.nextId }
      s.insertionPoint).run s.buffer = .ok t b) :
    (select choice).run s = .ok t
      (({ s with
            buffer := b, nextId := freeId s.buffer.ids s.nextId + 1, searchTerm := [],
            showsSuggestions := false } : Session).record .tagInserted .info
        ("Inserted tag ".toList ++ Text.quoted t.name) none
        [("tag_id", .integer t.id), ("suggestion_id", .integer choice.id),
          ("position", .integer t.position)]).refreshed := by
  let s₁ : Session := { s with nextId := freeId s.buffer.ids s.nextId + 1 }
  have htake : takeId.run s = .ok (freeId s.buffer.ids s.nextId) s₁ := rfl
  have hinsert : (edit (Buffer.insertTag { choice with id := freeId s.buffer.ids s.nextId }
      s₁.insertionPoint)).run s₁ = .ok t { s₁ with buffer := b } := run_edit h
  rw [select, run_bind_of_ok htake, run_bind_of_ok (EStateM.run_get s₁), run_bind_of_ok hinsert]
  rfl

theorem run_removeTag {s : Session} {id : Int} {t : Tag} {b : Buffer}
    (h : (Buffer.removeTag id).run s.buffer = .ok t b) :
    (removeTag id).run s = .ok t
      (({ s with buffer := b } : Session).record .tagRemoved .info
        ("Removed tag ".toList ++ Text.quoted t.name) none
        [("tag_id", .integer t.id), ("position", .integer t.position)]).refreshed := by
  rw [removeTag, run_bind_of_ok (run_edit h)]
  rfl

theorem insertionPoint_eq_cursor {s : Session} (h : s.buffer.IsBoundary s.buffer.cursor) :
    s.insertionPoint = s.buffer.cursor := by
  unfold insertionPoint
  split
  · next t ht =>
      obtain ⟨hmem, hle, hlt⟩ := Buffer.tagAt?_some ht
      rw [if_neg fun hpos => h.outside t hmem ⟨hpos, hlt⟩]
  · rfl

/-- The insertion point is the end of the cell that the cursor stands in or behind. -/
theorem insertionPoint_eq_extent {s : Session} {cells : List Cell} {p : Nat}
    (h : s.buffer.Layout cells) (hp : s.buffer.cursor = p) :
    s.insertionPoint = extent (splitAfter p cells).1 := by
  have hle := h.cursor_le
  rcases Nat.eq_zero_or_pos p with rfl | hpos
  · have hstart : s.buffer.IsBoundary s.buffer.cursor := by
      rw [hp]
      exact Buffer.Layout.isBoundary (l := []) h
    rw [insertionPoint_eq_cursor hstart, hp, splitAfter_zero, extent_nil]
  · obtain ⟨l, c, r, rfl, hlt, hle⟩ := exists_cell_of_le_extent hpos (Int.ofNat_le.1 (hp ▸ hle))
    have hend : (extent (l ++ [c]) : Int) = extent l + c.width := by
      rw [extent_append, extent_cons, extent_nil]
      omega
    rw [splitAfter_append hlt hle, hend]
    by_cases heq : p = extent l + c.width
    · have hjoint : s.buffer.IsBoundary s.buffer.cursor := by
        have hsplit : s.buffer.Layout ((l ++ [c]) ++ r) := by simpa using h
        have hcursor : s.buffer.cursor = extent (l ++ [c]) := by omega
        rw [hcursor]
        exact hsplit.isBoundary
      rw [insertionPoint_eq_cursor hjoint, hp, heq, Int.natCast_add]
    · cases c with
      | char c =>
          -- A character has no inside.
          rw [width_char] at hle heq
          omega
      | tag v =>
          rw [width_tag] at hle heq hend
          have hin : (Tag.ofSuggestion v (extent l)).position < s.buffer.cursor := by
            rw [hp]
            exact Int.ofNat_lt.2 hlt
          rw [insertionPoint, h.tagAt?_of_tag (by omega) (by omega)]
          exact if_pos hin

namespace Shows

variable {s : Session} {e : Editor}

theorem isBoundary (h : s.Shows e) : s.buffer.IsBoundary s.buffer.cursor := by
  rw [h.cursor_eq]
  exact h.layout.isBoundary

theorem insertionPoint_eq (h : s.Shows e) : s.insertionPoint = extent e.left := by
  rw [insertionPoint_eq_cursor h.isBoundary, h.cursor_eq]

theorem suggestions_eq (h : s.Shows e) : s.suggestions = e.suggestions.map Subtype.val := by
  rw [suggestions, Editor.suggestions, h.showsSuggestions_eq, h.searchTerm_eq, h.source_eq,
    h.limit_eq]
  split
  · rfl
  · simp [Slice.before]

/-! ## Steps that leave the buffer alone -/

theorem performs_refresh (h : s.Shows e) : Performs refresh s e := by
  obtain ⟨result, journal, outlet, heq⟩ := exists_refreshed s
  refine ⟨(), s.refreshed, rfl, ?_⟩
  rw [heq]
  exact { h with }

theorem performs_log (h : s.Shows e) (kind : EventKind) (message : Text)
    (extra : List (JsonString × Json)) : Performs (log kind message extra) s e :=
  ⟨(), _, rfl, { h with }⟩

theorem performs_typeSearch (h : s.Shows e) (term : Text) :
    Performs (typeSearch term) s (e.search term) :=
  ⟨(), _, rfl, { h with searchTerm_eq := rfl, showsSuggestions_eq := rfl }⟩

theorem performs_hideSuggestions (h : s.Shows e) :
    Performs hideSuggestions s { e with showsSuggestions := false } :=
  ⟨(), _, rfl, { h with showsSuggestions_eq := rfl }⟩

theorem performs_openSearch (h : s.Shows e) :
    Performs openSearch s { e with searchTerm := [], showsSuggestions := true } :=
  ⟨(), _, rfl, { h with searchTerm_eq := rfl, showsSuggestions_eq := rfl }⟩

/-- The next id is free already. -/
theorem run_takeId (h : s.Shows e) :
    takeId.run s = .ok e.nextId { s with nextId := e.nextId + 1 } := by
  have hfree : e.nextId ∉ s.buffer.ids := by
    intro hmem
    exact Int.lt_irrefl _ (h.ids_lt _ (h.layout.mem_ids_iff.1 hmem))
  rw [← h.nextId_eq] at hfree ⊢
  simp only [takeId, EStateM.run_bind, EStateM.run_get, EStateM.run_set, EStateM.run_pure,
    freeId_of_not_mem hfree]

/-! ## The cursor -/

/-- The cursor is put where a part of the row ends, wherever it was before. -/
theorem performs_setCursor_from (h : s.Shows e) {l r : List Cell} {p : Int}
    (heq : e.left ++ e.right = l ++ r) (hp₀ : 0 ≤ p) (hp₁ : p ≤ extent (e.left ++ e.right)) :
    Performs (edit (Buffer.setCursor (extent l)))
      { s with buffer := { s.buffer with cursor := p } } (e.splitAt (l, r)) := by
  have hlayout := h.layout.withCursor hp₀ hp₁
  rw [heq] at hlayout
  have h₀ : (0 : Int) ≤ extent l := by omega
  have h₁ : (extent l : Int) ≤ extent (l ++ r) := by
    rw [extent_append]
    omega
  refine ⟨(), _, run_edit (hlayout.run_setCursor h₀ h₁), ?_⟩
  exact { h with
    layout := hlayout.withCursor h₀ h₁
    cursor_eq := rfl
    ids_lt := fun id hid => h.ids_lt id (heq ▸ hid) }

theorem performs_setCursor (h : s.Shows e) {l r : List Cell}
    (heq : e.left ++ e.right = l ++ r) :
    Performs (edit (Buffer.setCursor (extent l))) s (e.splitAt (l, r)) :=
  h.performs_setCursor_from heq h.layout.cursor_nonneg h.layout.cursor_le

theorem cursor_eq_zero_iff (h : s.Shows e) : s.buffer.cursor = 0 ↔ e.left = [] := by
  have hw := h.layout.wellFormed.of_append_left
  rw [h.cursor_eq]
  constructor
  · intro hzero
    exact hw.eq_nil_of_extent (by omega)
  · intro hnil
    rw [hnil]
    rfl

theorem cursor_eq_length_iff (h : s.Shows e) :
    s.buffer.cursor = s.buffer.length ↔ e.right = [] := by
  have hw := h.layout.wellFormed.of_append_right
  rw [h.cursor_eq, h.layout.length_eq, extent_append]
  constructor
  · intro hlength
    exact hw.eq_nil_of_extent (by omega)
  · intro hnil
    rw [hnil, extent_nil]
    omega

theorem performs_moveToStart (h : s.Shows e) : Performs moveToStart s e.moveToStart :=
  h.performs_setCursor (l := []) rfl

theorem performs_moveToEnd (h : s.Shows e) : Performs moveToEnd s e.moveToEnd := by
  refine .of_bind (EStateM.run_get s) ?_
  rw [h.layout.length_eq]
  exact h.performs_setCursor (List.append_nil _).symm

theorem performs_focus (h : s.Shows e) : Performs focus s e.focus := by
  have hstart : (s.buffer.cursor = 0 ∧ 0 < s.buffer.length) ↔
      (e.left.isEmpty && !e.right.isEmpty) = true := by
    have hlength := h.cursor_eq_length_iff
    rw [h.cursor_eq_zero_iff, Bool.and_eq_true, Bool.not_eq_true', List.isEmpty_iff,
      List.isEmpty_eq_false_iff]
    refine and_congr_right fun hnil => ?_
    rw [h.cursor_eq_zero_iff.2 hnil] at hlength
    rw [Ne, ← hlength]
    omega
  refine .of_bind (EStateM.run_get s) ?_
  rw [Editor.focus]
  by_cases hand : s.buffer.cursor = 0 ∧ 0 < s.buffer.length
  · rw [if_pos hand, if_pos (hstart.1 hand)]
    exact h.performs_moveToEnd
  · rw [if_neg hand, if_neg fun hleft => hand (hstart.2 hleft)]
    exact h.performs_pure ()

/-- The row parts at the cell to the left of the cursor. -/
theorem parts_at_left (h : s.Shows e) {l : List Cell} {c : Cell} (hleft : e.left = l ++ [c]) :
    e.left ++ e.right = l ++ c :: e.right ∧ s.buffer.cursor = extent l + c.width ∧
      s.buffer.cursor ≠ 0 := by
  have hcursor := h.cursor_eq
  rw [hleft, extent_append, extent_cons, extent_nil] at hcursor
  refine ⟨by rw [hleft, List.append_assoc]; rfl, by omega, ?_⟩
  rw [Ne, h.cursor_eq_zero_iff, hleft]
  simp

theorem performs_moveLeft (h : s.Shows e) : Performs moveLeft s e.moveLeft := by
  refine .of_bind (EStateM.run_get s) ?_
  rw [Editor.moveLeft]
  rcases List.eq_nil_or_concat e.left with hleft | ⟨l, c, hleft⟩
  · rw [if_pos (h.cursor_eq_zero_iff.2 hleft), hleft]
    exact h.performs_pure ()
  · rw [List.concat_eq_append] at hleft
    obtain ⟨heq, hcursor, hne⟩ := h.parts_at_left hleft
    have hlayout := h.layout
    rw [heq] at hlayout
    have hmove := h.performs_setCursor heq
    rw [if_neg hne, hleft, List.getLast?_concat, List.dropLast_concat]
    cases c with
    | char c =>
        rw [width_char] at hcursor
        have hat : s.buffer.cursor - 1 = extent l := by omega
        rw [hat, hlayout.tagAt?_of_char]
        exact hmove
    | tag v =>
        have hpos := hlayout.wellFormed.width_pos (c := tag v) (by simp)
        rw [width_tag] at hcursor hpos
        rw [hlayout.tagAt?_of_tag (by omega) (by omega)]
        exact hmove

theorem performs_moveRight (h : s.Shows e) : Performs moveRight s e.moveRight := by
  refine .of_bind (EStateM.run_get s) ?_
  rw [Editor.moveRight]
  cases hright : e.right with
  | nil =>
      rw [if_pos (h.cursor_eq_length_iff.2 hright)]
      exact h.performs_pure ()
  | cons c r =>
      have hlayout := h.layout
      rw [hright] at hlayout
      have hne : s.buffer.cursor ≠ s.buffer.length := by
        rw [Ne, h.cursor_eq_length_iff, hright]
        simp
      have heq : e.left ++ e.right = (e.left ++ [c]) ++ r := by rw [hright, List.append_assoc]; rfl
      have hmove := h.performs_setCursor heq
      rw [extent_append, extent_cons, extent_nil] at hmove
      rw [if_neg hne]
      cases c with
      | char c =>
          rw [h.cursor_eq, hlayout.tagAt?_of_char]
          exact hmove
      | tag v =>
          have hpos := hlayout.wellFormed.width_pos (c := tag v) (by simp)
          have hcursor := h.cursor_eq
          rw [width_tag] at hpos
          rw [hlayout.tagAt?_of_tag (by omega) (by omega)]
          exact hmove

theorem performs_click (h : s.Shows e) {p : Int} (hp : 0 ≤ p ∧ p ≤ extent e.cells) :
    Performs (click p) s (e.click p) := by
  have hset := h.layout.run_setCursor hp.1 hp.2
  have hlayout := h.layout.withCursor hp.1 hp.2
  have hsplit := (splitAfter_fst_append_snd p.toNat e.cells).symm
  refine .of_bind (run_edit hset) (.of_bind (EStateM.run_get _) ?_)
  rw [insertionPoint_eq_extent hlayout (Int.toNat_of_nonneg hp.1).symm, Editor.click, if_pos hp]
  exact h.performs_setCursor_from hsplit hp.1 hp.2

theorem click_refused (h : s.Shows e) {p : Int} (hp : ¬ (0 ≤ p ∧ p ≤ extent e.cells)) :
    ∃ err, (click p).run s = .error err s := by
  have hp' : ¬ (0 ≤ p ∧ p ≤ s.buffer.length) := by
    rw [h.layout.length_eq]
    exact hp
  obtain ⟨err, hrun, -⟩ := Buffer.setCursor_refused hp'
  refine ⟨err, ?_⟩
  rw [click, EStateM.run_bind, run_edit_error hrun]

end Shows

end Session

end TagFormula
