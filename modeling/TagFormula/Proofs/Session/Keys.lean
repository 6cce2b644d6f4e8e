import TagFormula.Proofs.Session.Simulation

/-!
# Keys wherever the cursor stands

The buffer of a session can also be edited from outside, so a key may find the cursor
strictly inside a tag and ids taken that the session has not given. All that is assumed here
is that the buffer is laid out as some row of cells.

A key that edits or moves goes by the cell that the cursor stands in or next to, whether it
is at the end of that cell or inside it. So it goes through, takes out or puts in at most
one cell as a whole, and leaves the cursor at a joint (`Settles`).
-/

namespace TagFormula

namespace Cell

/-- At most one cell has been put in or taken out. -/
inductive ChangesOne (cells : List Cell) : List Cell → Prop where
  | same : ChangesOne cells cells
  | put {l r : List Cell} (c : Cell) (h : cells = l ++ r) : ChangesOne cells (l ++ c :: r)
  | taken {l r : List Cell} {c : Cell} (h : cells = l ++ c :: r) : ChangesOne cells (l ++ r)

end Cell

/-- A key acts on the buffer of a session. The other keys change the search, or nothing. -/
def Key.ActsOn (s : Session) : Key → Prop
  | operator _ | digit _ | left | right | home | toEnd => True
  | enter => s.suggestions ≠ []
  | backspace => s.searchTerm = [] ∧ s.buffer.cursor ≠ 0
  | escape | character _ | other => False

namespace Buffer.Layout

open Cell

variable {b : Buffer} {l r : List Cell} {v : Suggestion}

/-- With the cursor strictly inside a variable no tag ends at it. -/
theorem tagBeforeCursor?_of_inside (h : b.Layout (l ++ tag v :: r)) (h₀ : extent l < b.cursor)
    (h₁ : b.cursor < extent l + v.name.length) : b.tagBeforeCursor? = none := by
  refine tagBeforeCursor?_eq_none fun t ht hstop => ?_
  have hlt := h.position_lt_stop ht
  have hv : (Tag.ofSuggestion v (extent l)).stop = extent l + v.name.length := rfl
  have hv' : (Tag.ofSuggestion v (extent l)).position = extent l := rfl
  have heq := h.tag_eq ht h.mem_tags (by omega) (by omega)
  rw [heq, hv] at hstop
  omega

/-- With the cursor inside or behind a variable, the lookups at the cursor and before it find
its tag. -/
theorem lookup_of_tag (h : b.Layout (l ++ tag v :: r)) (h₀ : extent l < b.cursor)
    (h₁ : b.cursor ≤ extent l + v.name.length) :
    (b.tagBeforeCursor? <|> b.tagAt? (b.cursor - 1)) = some (.ofSuggestion v (extent l)) := by
  by_cases heq : b.cursor = extent l + v.name.length
  · rw [h.tagBeforeCursor?_of_tag heq]
    rfl
  · rw [h.tagBeforeCursor?_of_inside h₀ (by omega), h.tagAt?_of_tag (by omega) (by omega)]
    rfl

end Buffer.Layout

namespace Session

open Cell

/-- The action succeeds. Afterwards the cursor stands at a joint of a row that differs from
the cells before in one cell at most. -/
def Settles {α : Type} (action : Action α) (s : Session) (cells : List Cell) : Prop :=
  Returns action s fun s' => ∃ l r, s'.buffer.Layout (l ++ r) ∧ s'.buffer.cursor = extent l ∧
    ChangesOne cells (l ++ r)

/-- The action succeeds and leaves the buffer alone. -/
def Idles {α : Type} (action : Action α) (s : Session) : Prop :=
  Returns action s fun s' => s'.buffer = s.buffer

theorem Settles.of_bind {α β : Type} {action : Action α} {next : α → Action β}
    {s s' : Session} {cells : List Cell} {x : α} (h : action.run s = .ok x s')
    (hnext : Settles (next x) s' cells) : Settles (action >>= next) s cells :=
  Returns.of_bind h hnext

theorem Settles.bind {α β : Type} {action : Action α} {next : α → Action β} {s : Session}
    {cells : List Cell} (h : Settles action s cells) (hnext : ∀ x s', Idles (next x) s') :
    Settles (action >>= next) s cells := by
  refine Returns.bind h fun x s' hsettled => ?_
  obtain ⟨y, s'', hrun, hsame⟩ := hnext x s'
  rw [← hsame] at hsettled
  exact ⟨y, s'', hrun, hsettled⟩

theorem idles_pure {α : Type} (x : α) (s : Session) : Idles (pure x) s :=
  ⟨x, s, rfl, rfl⟩

/-! ## Actions at the cursor -/

section

variable {s : Session} {cells : List Cell}

/-- The insertion point is a joint. -/
theorem exists_insertionPoint (h : s.buffer.Layout cells) :
    ∃ l r, cells = l ++ r ∧ s.insertionPoint = extent l := by
  obtain ⟨p, hp⟩ := Int.eq_ofNat_of_zero_le h.cursor_nonneg
  exact ⟨_, _, (splitAfter_fst_append_snd p cells).symm, insertionPoint_eq_extent h hp⟩

/-- A cursor that is not at the start stands inside a cell or at its end. -/
theorem exists_cell_left (h : s.buffer.Layout cells) (hcursor : s.buffer.cursor ≠ 0) :
    ∃ l c r, cells = l ++ c :: r ∧ extent l < s.buffer.cursor ∧
      s.buffer.cursor ≤ extent l + c.width := by
  obtain ⟨p, hp⟩ := Int.eq_ofNat_of_zero_le h.cursor_nonneg
  have hpos : 0 < p := by omega
  have hle : p ≤ extent cells := by
    have := h.cursor_le
    omega
  obtain ⟨l, c, r, heq, hlt, hle⟩ := exists_cell_of_le_extent hpos hle
  exact ⟨l, c, r, heq, by omega, by omega⟩

/-- A cursor that is not at the end stands inside a cell or at its start. -/
theorem exists_cell_right (h : s.buffer.Layout cells) (hcursor : s.buffer.cursor ≠ s.buffer.length) :
    ∃ l c r, cells = l ++ c :: r ∧ extent l ≤ s.buffer.cursor ∧
      s.buffer.cursor < extent l + c.width := by
  obtain ⟨p, hp⟩ := Int.eq_ofNat_of_zero_le h.cursor_nonneg
  have hle : p + 1 ≤ extent cells := by
    have := h.cursor_le
    rw [h.length_eq] at hcursor
    omega
  obtain ⟨l, c, r, heq, hlt, hle⟩ := exists_cell_of_le_extent (Nat.succ_pos p) hle
  exact ⟨l, c, r, heq, by omega, by omega⟩

theorem settles_insertChar (h : s.buffer.Layout cells) (c : Char) :
    Settles (insertChar c) s cells := by
  obtain ⟨l, r, rfl, hplace⟩ := exists_insertionPoint h
  obtain ⟨b, hinsert, hlayout, -⟩ := h.run_insertText [c]
  have hput : b.Layout ((l ++ [char c]) ++ r) := by simpa using hlayout
  have hend : (extent (l ++ [char c]) : Int) = extent l + 1 := by simp
  have h₁ : (extent l + 1 : Int) ≤ extent ((l ++ [char c]) ++ r) := by
    rw [extent_append, Int.natCast_add]
    omega
  have hset := hput.run_setCursor (by omega) h₁
  rw [← hplace] at hinsert hset
  refine ⟨(), _, run_insertChar hinsert hset, l ++ [char c], r, ?_, ?_, ?_⟩
  · rw [buffer_refreshed, hplace]
    exact hput.withCursor (by omega) h₁
  · rw [buffer_refreshed, hend, ← hplace]
  · rw [List.append_assoc]
    exact .put _ rfl

/-- A valid suggestion can be put in at the insertion point under the first free id. -/
theorem exists_run_insertTag (h : s.buffer.Layout cells) {choice : Suggestion}
    (hv : choice.Valid) :
    let v : Suggestion := { choice with id := freeId s.buffer.ids s.nextId }
    ∃ l r b, cells = l ++ r ∧ s.insertionPoint = extent l ∧
      (Buffer.insertTag v s.insertionPoint).run s.buffer = .ok (.ofSuggestion v s.insertionPoint) b ∧
      b.Layout (l ++ tag v :: r) ∧ b.cursor = extent (l ++ [tag v]) := by
  intro v
  obtain ⟨l, r, rfl, hplace⟩ := exists_insertionPoint h
  have hnew : v.id ∉ Cell.ids (l ++ r) := fun hmem =>
    freeId_not_mem _ _ (h.mem_ids_iff.2 hmem)
  obtain ⟨b, hinsert, hlayout, hcursor, -⟩ :=
    h.run_insertTag (s := v) ⟨hv.name_ne_nil, hv.isFinite_value⟩ hnew
  rw [← hplace] at hinsert
  exact ⟨l, r, b, rfl, hplace, hinsert, hlayout, hcursor⟩

theorem settles_select (h : s.buffer.Layout cells) {choice : Suggestion} (hv : choice.Valid) :
    Settles (select choice) s cells := by
  let v : Suggestion := { choice with id := freeId s.buffer.ids s.nextId }
  obtain ⟨l, r, b, rfl, -, hinsert, hlayout, hcursor⟩ := exists_run_insertTag h hv
  refine ⟨_, _, run_select hinsert, l ++ [tag v], r, ?_, ?_, ?_⟩
  · rw [buffer_refreshed]
    simpa using hlayout
  · rw [buffer_refreshed]
    exact hcursor
  · rw [List.append_assoc]
    exact .put _ rfl

/-- The cursor is put at a joint, and nothing else changes. -/
theorem settles_setCursor {l r : List Cell} (h : s.buffer.Layout (l ++ r)) {p : Int}
    (hp : p = extent l) : Settles (edit (Buffer.setCursor p)) s (l ++ r) := by
  have h₀ : 0 ≤ p := by omega
  have h₁ : p ≤ extent (l ++ r) := by
    rw [extent_append]
    omega
  exact ⟨(), _, run_edit (h.run_setCursor h₀ h₁), l, r, h.withCursor h₀ h₁, hp, .same⟩

theorem settles_moveToStart (h : s.buffer.Layout cells) : Settles moveToStart s cells :=
  settles_setCursor (l := []) h rfl

theorem settles_moveToEnd (h : s.buffer.Layout cells) : Settles moveToEnd s cells := by
  rw [← List.append_nil cells] at h ⊢
  refine .of_bind (EStateM.run_get s) (settles_setCursor h ?_)
  rw [h.length_eq, List.append_nil]

theorem settles_moveLeft (h : s.buffer.Layout cells) : Settles moveLeft s cells := by
  refine .of_bind (EStateM.run_get s) ?_
  dsimp only
  split
  next hcursor => exact Returns.pure ⟨[], cells, h, hcursor, .same⟩ ()
  next hcursor =>
    obtain ⟨l, c, r, rfl, hlt, hle⟩ := exists_cell_left h hcursor
    cases c with
    | char c =>
      rw [width_char] at hle
      have hstart : s.buffer.cursor - 1 = extent l := by omega
      rw [hstart, h.tagAt?_of_char]
      exact settles_setCursor h rfl
    | tag v =>
      rw [width_tag] at hle
      rw [h.tagAt?_of_tag (by omega) (by omega)]
      exact settles_setCursor h rfl

theorem settles_moveRight (h : s.buffer.Layout cells) : Settles moveRight s cells := by
  refine .of_bind (EStateM.run_get s) ?_
  dsimp only
  split
  next hcursor =>
    refine Returns.pure ⟨cells, [], by rwa [List.append_nil], ?_, ?_⟩ ()
    · rw [hcursor, h.length_eq]
    · rw [List.append_nil]
      exact .same
  next hcursor =>
    obtain ⟨l, c, r, rfl, hle, hlt⟩ := exists_cell_right h hcursor
    have hrow : s.buffer.Layout ((l ++ [c]) ++ r) := by simpa using h
    have hend : (extent (l ++ [c]) : Int) = extent l + c.width := by simp
    rw [List.append_cons]
    cases c with
    | char c =>
      rw [width_char] at hlt hend
      have hstart : s.buffer.cursor = extent l := by omega
      rw [hstart, h.tagAt?_of_char]
      exact settles_setCursor hrow hend.symm
    | tag v =>
      rw [width_tag] at hlt hend
      rw [h.tagAt?_of_tag hle hlt]
      exact settles_setCursor hrow hend.symm

/-- The character to the left of a joint is deleted. -/
theorem settles_deleteChar {l r : List Cell} {c : Char} (h : s.buffer.Layout (l ++ char c :: r))
    (hcursor : s.buffer.cursor = extent l + 1) :
    Settles (do
      edit (Buffer.deleteRange (s.buffer.cursor - 1) s.buffer.cursor)
      edit (Buffer.setCursor (s.buffer.cursor - 1))
      refresh) s (l ++ char c :: r) := by
  have hrow : s.buffer.Layout (l ++ ([char c] ++ r)) := h
  obtain ⟨b, hdelete, hlayout, -⟩ := hrow.run_deleteRange
  have h₁ : (extent l : Int) ≤ extent (l ++ r) := by
    rw [extent_append]
    omega
  have hstart : s.buffer.cursor - 1 = extent l := by omega
  have hstop : s.buffer.cursor = extent l + extent [char c] := by simpa using hcursor
  rw [← hstop, ← hstart] at hdelete
  have hset := hlayout.run_setCursor (p := s.buffer.cursor - 1) (by omega) (by omega)
  refine .of_bind (run_edit hdelete) (.of_bind (run_edit hset) ?_)
  refine ⟨(), _, rfl, l, r, ?_, ?_, .taken rfl⟩
  · rw [buffer_refreshed]
    exact hlayout.withCursor (by omega) (by omega)
  · rw [buffer_refreshed, hstart]

theorem settles_removeTag {l r : List Cell} {v : Suggestion} (h : s.buffer.Layout (l ++ tag v :: r)) :
    Settles (removeTag v.id) s (l ++ tag v :: r) := by
  obtain ⟨b, hremove, hlayout, hcursor, -⟩ := h.run_removeTag
  refine ⟨_, _, run_removeTag hremove, l, r, ?_, ?_, .taken rfl⟩
  · rwa [buffer_refreshed]
  · rwa [buffer_refreshed]

/-- Without a search term the cell to the left of the cursor is deleted. -/
theorem settles_backspace (h : s.buffer.Layout cells) (hterm : s.searchTerm.isEmpty = true)
    (hcursor : s.buffer.cursor ≠ 0) : Settles backspace s cells := by
  obtain ⟨l, c, r, rfl, hlt, hle⟩ := exists_cell_left h hcursor
  refine .of_bind (EStateM.run_get s) ?_
  rw [hterm]
  dsimp only
  rw [if_neg (by decide), if_neg hcursor]
  cases c with
  | char c =>
    rw [width_char] at hle
    have hend : s.buffer.cursor = extent l + 1 := by omega
    have hstart : s.buffer.cursor - 1 = extent l := by omega
    rw [h.tagBeforeCursor?_of_char hend, hstart, h.tagAt?_of_char, ← hstart]
    exact settles_deleteChar h hend
  | tag v =>
    rw [width_tag] at hle
    rw [h.lookup_of_tag hlt hle]
    exact (settles_removeTag h).bind fun _ s' => idles_pure () s'

end

/-! ## Keys -/

theorem settles_press {s : Session} {cells : List Cell} (h : s.buffer.Layout cells)
    (hoffers : ∀ v ∈ s.suggestions, v.Valid) {key : Key} (hkey : key.ActsOn s) :
    Settles (press key) s cells := by
  cases key with
  | operator c =>
    refine (settles_insertChar h c).bind fun _ s' => ?_
    exact ⟨true, _, rfl, rfl⟩
  | digit c => exact (settles_insertChar h c).bind fun _ s' => idles_pure true s'
  | backspace =>
    obtain ⟨hterm, hcursor⟩ := hkey
    have hempty : s.searchTerm.isEmpty = true := by rw [hterm]; rfl
    exact (settles_backspace h hempty hcursor).bind fun _ s' => idles_pure true s'
  | left => exact (settles_moveLeft h).bind fun _ s' => idles_pure true s'
  | right => exact (settles_moveRight h).bind fun _ s' => idles_pure true s'
  | home => exact (settles_moveToStart h).bind fun _ s' => idles_pure true s'
  | toEnd => exact (settles_moveToEnd h).bind fun _ s' => idles_pure true s'
  | enter =>
    refine .of_bind (EStateM.run_get s) ?_
    cases hchoice : s.suggestions with
    | nil => exact absurd hchoice hkey
    | cons choice rest =>
      have hvalid : choice.Valid := hoffers choice (hchoice ▸ List.mem_cons_self)
      exact (settles_select h hvalid).bind fun _ s' => idles_pure true s'
  | escape | character c | other => exact hkey.elim

/-- Shortening the search term, or deleting at the start of the row. -/
theorem idles_backspace {s : Session} (h : s.searchTerm = [] → s.buffer.cursor = 0) :
    Idles backspace s := by
  by_cases hterm : s.searchTerm = []
  · refine ⟨(), s, ?_, rfl⟩
    rw [backspace, run_bind_of_ok (EStateM.run_get s), hterm]
    dsimp only
    rw [if_neg (by decide), if_pos (h hterm)]
    rfl
  · have hrun : backspace.run s = (typeSearch s.searchTerm.dropLast).run s := by
      rw [backspace, run_bind_of_ok (EStateM.run_get s)]
      dsimp only
      rw [if_pos (by simpa using hterm)]
    exact ⟨(), _, hrun, rfl⟩

theorem idles_press {s : Session} {key : Key} (hkey : ¬ key.ActsOn s) : Idles (press key) s := by
  cases key with
  | operator c | digit c | left | right | home | toEnd => exact absurd trivial hkey
  | backspace =>
    obtain ⟨x, s', hrun, hsame⟩ := idles_backspace fun hterm =>
      Classical.byContradiction fun hne => hkey ⟨hterm, hne⟩
    exact ⟨true, s', by rw [press, run_bind_of_ok hrun]; rfl, hsame⟩
  | enter =>
    have hnil : s.suggestions = [] := Classical.byContradiction hkey
    refine ⟨true, s, ?_, rfl⟩
    rw [press, run_bind_of_ok (EStateM.run_get s), hnil]
    rfl
  | escape => exact ⟨true, _, rfl, rfl⟩
  | character c => exact ⟨true, _, rfl, rfl⟩
  | other => exact ⟨false, _, rfl, rfl⟩

end Session

end TagFormula
