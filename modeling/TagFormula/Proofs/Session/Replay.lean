import TagFormula.Proofs.Buffer.Tagging
import TagFormula.Proofs.Session.Result

/-!
# Typing a tagged formula

A formula that has been tagged can be entered in a session: the text of its segments is typed
key by key, and for every tag its variable is selected. The session then has the same
buffer, and the same outcome.

The two ways come to the same because both only ever add at the end. The session counts the
ids up as well, since it has given all the ids that there are (`Typed`). So after some
segments its buffer is that of their cells, and it is enough to follow one segment.
-/

namespace TagFormula

open Cell

/-- A character whose key goes in as it is. -/
def Key.Enters (c : Char) : Prop :=
  isOperator c = true ∨ c.isDigit = true

namespace Session

/-- Types the text of segments and selects the variables of their tags. A variable may be
given with any id, since the session gives it a new one. -/
def replay (given : Suggestion → Int) : List Segment → Action Unit
  | [] => return ()
  | .text _ t :: segments => do
    typeKeys t
    replay given segments
  | .tag t :: segments => do
    let _ ← select { t.toSuggestion with id := given t.toSuggestion }
    replay given segments

/-- The buffer is that of a row with the cursor at its end, and the ids below `next` have been
given, among them all of the row. -/
structure Typed (cells : List Cell) (next : Int) (s : Session) : Prop where
  wellFormed : WellFormed cells
  buffer_eq : s.buffer = Buffer.ofCells cells (extent cells)
  nextId_eq : s.nextId = next
  ids_lt : ∀ id ∈ Cell.ids cells, id < next

namespace Typed

variable {cells : List Cell} {next : Int} {s : Session}

theorem layout (h : Typed cells next s) : s.buffer.Layout cells := by
  rw [h.buffer_eq]
  exact Buffer.layout_ofCells h.wellFormed (by omega) (Int.le_refl _)

theorem insertionPoint_eq (h : Typed cells next s) : s.insertionPoint = extent cells := by
  have hcursor : s.buffer.cursor = extent cells := by
    rw [h.buffer_eq]
    rfl
  have hend : s.buffer.IsBoundary s.buffer.cursor := by
    rw [hcursor, h.layout.isBoundary_iff]
    exact ⟨cells, [], (List.append_nil _).symm, rfl⟩
  rw [insertionPoint_eq_cursor hend, hcursor]

theorem refreshed (h : Typed cells next s) : Typed cells next s.refreshed := by
  obtain ⟨result, journal, outlet, heq⟩ := exists_refreshed s
  rw [heq]
  exact { h with }

/-! ## One character -/

theorem insertChar (h : Typed cells next s) (c : Char) :
    Returns (Session.insertChar c) s (Typed (cells ++ [char c]) next) := by
  have hlayout := h.layout
  rw [h.buffer_eq] at hlayout
  obtain ⟨hrun, hlayout'⟩ := Buffer.run_insertText_ofCells hlayout [c]
  have hend : (extent (cells ++ [char c]) : Int) = extent cells + 1 := by simp
  have hinsert : (Buffer.insertText s.insertionPoint [c]).run s.buffer =
      .ok () (Buffer.ofCells (cells ++ [char c]) (extent cells)) := by
    rw [h.insertionPoint_eq, h.buffer_eq]
    exact hrun
  have hset : (Buffer.setCursor (s.insertionPoint + 1)).run
      (Buffer.ofCells (cells ++ [char c]) (extent cells)) =
        .ok () (Buffer.ofCells (cells ++ [char c]) (extent (cells ++ [char c]))) := by
    rw [h.insertionPoint_eq, ← hend]
    exact hlayout'.run_setCursor (by omega) (Int.le_refl _)
  exact ⟨(), _, run_insertChar hinsert hset, refreshed {
    wellFormed := hlayout'.wellFormed
    buffer_eq := rfl
    nextId_eq := h.nextId_eq
    ids_lt := by simpa using h.ids_lt }⟩

theorem press (h : Typed cells next s) {c : Char} (hc : Key.Enters c) :
    Returns (Session.press (.ofChar c)) s (Typed (cells ++ [char c]) next) := by
  rw [Key.ofChar]
  split
  next =>
    refine (h.insertChar c).bind fun _ s' h' => ?_
    exact ⟨true, _, rfl, { h' with }⟩
  next hnot =>
    have hdigit : c.isDigit = true := hc.resolve_left hnot
    rw [if_pos hdigit]
    exact (h.insertChar c).bind fun _ s' h' => Returns.pure h' true

/-! ## Segments -/

theorem typeKeys (h : Typed cells next s) {t : Text} (ht : ∀ c ∈ t, Key.Enters c) :
    Returns (Session.typeKeys t) s (Typed (cells ++ t.map char) next) := by
  induction t generalizing cells s with
  | nil =>
    rw [List.map_nil, List.append_nil]
    exact Returns.pure h ()
  | cons c t ih =>
    obtain ⟨hc, ht⟩ := List.forall_mem_cons.1 ht
    refine (h.press hc).bind fun _ s' h' => ?_
    rw [List.map_cons, List.append_cons]
    exact ih h' ht

/-- The id that a variable is selected with plays no part. -/
theorem select (h : Typed cells next s) {v : Suggestion} (hv : v.Valid) (id : Int) :
    Returns (Session.select { v with id }) s
      (Typed (cells ++ [tag { v with id := next }]) (next + 1)) := by
  let v' : Suggestion := { v with id := next }
  have hvalid : v'.Valid := ⟨hv.name_ne_nil, hv.isFinite_value⟩
  have hnew : next ∉ Cell.ids cells := fun hmem => Int.lt_irrefl _ (h.ids_lt _ hmem)
  have hfree : freeId s.buffer.ids s.nextId = next := by
    rw [h.nextId_eq]
    exact freeId_of_not_mem fun hmem => hnew (h.layout.mem_ids_iff.1 hmem)
  have hlayout := h.layout
  rw [h.buffer_eq] at hlayout
  obtain ⟨hrun, hlayout'⟩ := Buffer.run_insertTag_ofCells hlayout hvalid hnew
  have hinsert : (Buffer.insertTag { v with id := freeId s.buffer.ids s.nextId }
      s.insertionPoint).run s.buffer =
        .ok (.ofSuggestion v' (extent cells))
          (Buffer.ofCells (cells ++ [tag v']) (extent (cells ++ [tag v']))) := by
    rw [hfree, h.insertionPoint_eq, h.buffer_eq]
    exact hrun
  refine ⟨_, _, run_select hinsert, refreshed ?_⟩
  rw [hfree]
  exact {
    wellFormed := hlayout'.wellFormed
    buffer_eq := rfl
    nextId_eq := rfl
    ids_lt := ids_lt_of_next (by simpa using h.ids_lt) rfl }

/-- Segments whose tags have the ids to come. -/
theorem replay (h : Typed cells next s) (given : Suggestion → Int) {segments : List Segment}
    (hnumbered : Numbered next (segments.flatMap Segment.cells))
    (hvalid : ∀ v, tag v ∈ segments.flatMap Segment.cells → v.Valid)
    (hkeys : ∀ start t, .text start t ∈ segments → ∀ c ∈ t, Key.Enters c) :
    ∃ next', Returns (Session.replay given segments) s
      (Typed (cells ++ segments.flatMap Segment.cells) next') := by
  induction segments generalizing cells next s with
  | nil =>
    rw [List.flatMap_nil, List.append_nil]
    exact ⟨next, Returns.pure h ()⟩
  | cons g segments ih =>
    rw [List.flatMap_cons] at hnumbered hvalid ⊢
    have hvalid' := fun v hv => hvalid v (List.mem_append_right _ hv)
    have hkeys' := fun start t ht => hkeys start t (List.mem_cons_of_mem _ ht)
    rw [← List.append_assoc]
    cases g with
    | text start t =>
      obtain ⟨x, s', hrun, h'⟩ := h.typeKeys (hkeys start t List.mem_cons_self)
      obtain ⟨next', hrest⟩ := ih h' (numbered_text_append.1 hnumbered) hvalid' hkeys'
      exact ⟨next', .of_bind hrun hrest⟩
    | tag t =>
      -- The tag of the segment has the id that the session gives next.
      obtain ⟨hid, hnumbered'⟩ := hnumbered
      have hv : t.toSuggestion.Valid := hvalid _ List.mem_cons_self
      obtain ⟨x, s', hrun, h'⟩ := h.select hv (given t.toSuggestion)
      obtain ⟨next', hrest⟩ := ih h' hnumbered' hvalid' hkeys'
      rw [← hid] at hrest
      exact ⟨next', .of_bind hrun hrest⟩

end Typed

theorem leads_replay (given : Suggestion → Int) (segments : List Segment) :
    Leads Current (replay given segments) Current := by
  induction segments with
  | nil => exact .pure ()
  | cons g segments ih =>
    cases g with
    | text start t => exact (leads_typeKeys t).bind fun _ => ih
    | tag t => exact (leads_select _).bind fun _ => ih

theorem typed_start (source : Text → List Suggestion) (id : Text) (limit : Int) :
    Typed [] 1 (start source id limit) where
  wellFormed := wellFormed_nil
  buffer_eq := rfl
  nextId_eq := rfl
  ids_lt := List.forall_mem_nil _

/-- With finite variables every formula can be tagged. If the text between the tags goes in
key by key, entering the segments in a new session is never refused and gives the buffer and
the outcome of the tagged formula. -/
theorem replay_ofFormula (source : Text → List Suggestion) (id : Text) (limit : Int)
    (given : Suggestion → Int) (t : Text) {known : List Variable}
    (hknown : ∀ v ∈ known, Binary64.isFinite v.value = true) :
    ∃ b, Buffer.ofFormula t known = .ok b ∧
      ((∀ start u, .text start u ∈ b.render → ∀ c ∈ u, Key.Enters c) →
        ∃ s, (start source id limit).apply (replay given b.render) = (.ok (), s) ∧
          s.buffer = b ∧ s.result = b.calculate) := by
  obtain ⟨hformula, hwellFormed⟩ := Buffer.ofFormula_eq hknown t
  refine ⟨_, hformula, fun hkeys => ?_⟩
  have hlayout := Buffer.layout_ofCells hwellFormed (Int.natCast_nonneg _) (Int.le_refl _)
  have hrender := hlayout.flatMap_cells_render
  obtain ⟨next, _, s, hrun, htyped⟩ := (typed_start source id limit).replay given
    (by rw [hrender]; exact Piece.numbered_cells 1 _) (by rw [hrender]; exact hwellFormed.valid)
    hkeys
  rw [hrender, List.nil_append] at htyped
  have hcurrent : s.Current :=
    (leads_replay given _).of_run_ok (laidOut_start .closed source id limit)
      (current_start .closed source id limit) hrun
  refine ⟨s, apply_of_run_ok hrun, htyped.buffer_eq, ?_⟩
  rw [← htyped.buffer_eq]
  exact hcurrent

/-- A variable named by one letter. -/
def letter : Variable :=
  ⟨['A'], 3⟩

theorem formulaCells_letter :
    Buffer.formulaCells "2*A".toList [letter] = [char '2', char '*', tag ⟨1, ['A'], 3⟩] := by
  have hsplit : Piece.split (Variable.byLength [letter]) [] "2*A".toList =
      [.plain "2*".toList, .name letter] := by
    simp [Variable.byLength, letter, Piece.split, Piece.flush]
  rw [Buffer.formulaCells, hsplit]
  rfl

theorem replay_ofFormula_letter :
    (∀ v ∈ [letter], Binary64.isFinite v.value = true) ∧
      ∃ s, (start (fun _ => []) [] defaultLimit).apply
          (replay Suggestion.id [.text 0 "2*".toList, .tag ⟨⟨1, ['A'], 3⟩, 2⟩]) = (.ok (), s) ∧
        Buffer.ofFormula "2*A".toList [letter] = .ok s.buffer ∧
        s.result = s.buffer.calculate := by
  have hknown : ∀ v ∈ [letter], Binary64.isFinite v.value = true := by
    simp only [List.mem_singleton, forall_eq]
    decide +kernel
  obtain ⟨hcells, hwellFormed⟩ := Buffer.ofFormula_eq hknown "2*A".toList
  obtain ⟨b, hformula, hreplay⟩ := replay_ofFormula (fun _ => []) [] defaultLimit Suggestion.id
    "2*A".toList hknown
  have hlayout := Buffer.layout_ofCells hwellFormed (Int.natCast_nonneg _) (Int.le_refl _)
  rw [← Except.ok.inj (hformula.symm.trans hcells), formulaCells_letter] at hlayout
  have hrender : b.render = [.text 0 "2*".toList, .tag ⟨⟨1, ['A'], 3⟩, 2⟩] := by
    rw [Buffer.render, hlayout.sortedTags_eq, hlayout.text_eq]
    rfl
  rw [hrender] at hreplay
  obtain ⟨s, hrun, rfl, hresult⟩ := hreplay (by simp [Key.Enters, Key.isOperator])
  exact ⟨hknown, s, hrun, hformula, hresult⟩

end Session

end TagFormula
