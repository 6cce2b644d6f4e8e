import TagFormula.Buffer.Tagging
import TagFormula.Proofs.Buffer.Operation
import TagFormula.Proofs.Buffer.Rendering

/-!
# A tagged formula as a row of cells

A formula that is tagged piece by piece grows at its end. What has been put together so
far is a row of cells, and the buffer is known in full from the row and the cursor, the order
of its tags included (`Buffer.ofCells`). So what a piece adds can be written down as
cells (`Piece.cells`), and the whole buffer is that of the cells of all pieces
(`Buffer.ofFormula_eq`). No edit on the way is refused, as the ids are counted up and
the names and values have been judged.
-/

namespace TagFormula

open Cell

namespace Cell

/-- The ids of the variables of a row are counted up from `next`. -/
def Numbered : Int → List Cell → Prop
  | _, [] => True
  | next, char _ :: cells => Numbered next cells
  | next, tag s :: cells => s.id = next ∧ Numbered (next + 1) cells

theorem numbered_text_append {next : Int} {t : Text} {cells : List Cell} :
    Numbered next (t.map char ++ cells) ↔ Numbered next cells := by
  induction t with
  | nil => rfl
  | cons c t ih => exact ih

end Cell

namespace Piece

/-- The cells of pieces whose tags get ids from `next` on. -/
def cells : Nat → List Piece → List Cell
  | _, [] => []
  | next, plain t :: pieces => t.map .char ++ cells next pieces
  | next, name v :: pieces => .tag ⟨next, v.name, v.value⟩ :: cells (next + 1) pieces

theorem numbered_cells (next : Nat) (pieces : List Piece) : Numbered next (cells next pieces) := by
  induction pieces generalizing next with
  | nil => trivial
  | cons p pieces ih =>
    cases p with
    | plain t => exact numbered_text_append.2 (ih next)
    | name v => exact ⟨rfl, ih (next + 1)⟩

theorem mem_of_mem_split {known : List Variable} {v : Variable} {plain t : Text}
    (h : .name v ∈ split known plain t) : v ∈ known := by
  have hflush (t : Text) : .name v ∉ flush t := by
    unfold flush
    split <;> simp
  fun_induction split known plain t with
  | case1 plain => exact absurd h (hflush plain)
  | case2 plain c rest u hfind ih =>
    rcases List.mem_append.1 h with h | h
    · exact absurd h (hflush plain)
    rcases List.mem_cons.1 h with h | h
    · cases h
      exact List.mem_of_find?_eq_some hfind
    · exact ih h
  | case3 plain c rest hfind ih => exact ih h

end Piece

namespace Buffer

/-- The buffer of a row of cells, with the tags in the order of the row and none active. -/
def ofCells (cells : List Cell) (cursor : Int) : Buffer where
  text := contents cells
  tags := tagsFrom 0 cells
  cursor := cursor

theorem layout_ofCells {cells : List Cell} (h : WellFormed cells) {p : Int} (h₀ : 0 ≤ p)
    (h₁ : p ≤ extent cells) : (ofCells cells p).Layout cells where
  wellFormed := h
  text_eq := rfl
  tags_perm := .refl _
  cursor_nonneg := h₀
  cursor_le := h₁
  active_mem := nofun

/-! ## Edits at the end -/

section

variable {cells : List Cell} {p : Int}

/-- Text at the end moves no tag. -/
theorem splice_ofCells (h : (ofCells cells p).Layout cells) (t : Text) :
    (ofCells cells p).splice (extent cells) t =
      { ofCells cells p with text := contents cells ++ t } := by
  have hrow : (ofCells cells p).Layout (cells ++ []) := by rwa [List.append_nil]
  have htags : (tagsFrom 0 cells).map (shiftFrom (extent cells) t.length) = tagsFrom 0 cells :=
    map_shiftFrom_left h.wellFormed (by omega) _
  rw [splice, text_before hrow, text_after hrow, contents_nil, List.append_nil]
  simp only [ofCells, htags]

theorem run_insertText_ofCells (h : (ofCells cells p).Layout cells) (t : Text) :
    (insertText (extent cells) t).run (ofCells cells p) = .ok () (ofCells (cells ++ t.map char) p) ∧
      (ofCells (cells ++ t.map char) p).Layout (cells ++ t.map char) := by
  have hrow : (ofCells cells p).Layout (cells ++ []) := by rwa [List.append_nil]
  have hsplice : (ofCells cells p).splice (extent cells) t = ofCells (cells ++ t.map char) p := by
    rw [splice_ofCells h]
    simp [ofCells, tagsFrom_append, contents_map_char, tagsFrom_map_char]
  have hlayout := hrow.splice t
  rw [List.append_nil] at hlayout
  refine ⟨?_, hsplice ▸ hlayout⟩
  rw [Buffer.run_insertText hrow.isBoundary]
  cases t with
  | nil => simp
  | cons c t =>
    rw [← hsplice]
    exact run_transaction hlayout

theorem run_insertTag_ofCells (h : (ofCells cells p).Layout cells) {s : Suggestion} (hs : s.Valid)
    (hid : s.id ∉ Cell.ids cells) :
    (insertTag s (extent cells)).run (ofCells cells p) =
        .ok (.ofSuggestion s (extent cells))
          (ofCells (cells ++ [tag s]) (extent (cells ++ [tag s]))) ∧
      (ofCells (cells ++ [tag s]) (extent (cells ++ [tag s]))).Layout (cells ++ [tag s]) := by
  have hrow : (ofCells cells p).Layout (cells ++ []) := by rwa [List.append_nil]
  have hplace : (ofCells cells p).place (.ofSuggestion s (extent cells)) =
      ofCells (cells ++ [tag s]) (extent (cells ++ [tag s])) := by
    have hsplice : (ofCells cells p).splice (Tag.ofSuggestion s (extent cells)).position
        (Tag.ofSuggestion s (extent cells)).name =
          { ofCells cells p with text := contents cells ++ s.name } := splice_ofCells h s.name
    rw [place, hsplice]
    simp [ofCells, tagsFrom_append, tagsFrom, Tag.ofSuggestion, Tag.stop, content]
  have hlayout := hrow.place hs (by rwa [List.append_nil])
  have hid' : s.id ∉ (ofCells cells p).ids := fun hmem => hid (h.mem_ids_iff.1 hmem)
  rw [← hplace]
  exact ⟨Buffer.run_insertTag hs hid' hrow.isBoundary (run_transaction hlayout), hlayout⟩

end

/-! ## Pieces one after the other -/

theorem append_plain {cells : List Cell} {p : Int} (h : (ofCells cells p).Layout cells)
    (next : Nat) (t : Text) :
    (ofCells cells p).append next (.plain t) = .ok (ofCells (cells ++ t.map char) p) := by
  have hrun := apply_of_run_ok (run_insertText_ofCells h t).1
  rw [append, h.length_eq, hrun]

theorem append_name {cells : List Cell} {p : Int} (h : (ofCells cells p).Layout cells)
    {next : Nat} {v : Variable} (hv : (⟨next, v.name, v.value⟩ : Suggestion).Valid)
    (hid : (next : Int) ∉ Cell.ids cells) :
    (ofCells cells p).append next (.name v) =
      .ok (ofCells (cells ++ [tag ⟨next, v.name, v.value⟩])
        (extent (cells ++ [tag ⟨next, v.name, v.value⟩]))) := by
  have hfaults := (Suggestion.faults_eq_nil_iff _).2 hv
  have hrun := apply_of_run_ok (run_insertTag_ofCells h hv hid).1
  rw [append, hfaults, h.length_eq, hrun]
  rfl

/-- Pieces put in behind a row whose ids are all below those to come. -/
theorem appendAll_ofCells {cells : List Cell} {p : Int} (h : (ofCells cells p).Layout cells)
    {next : Nat} (hids : ∀ id ∈ Cell.ids cells, id < next) {pieces : List Piece}
    (hvalid : ∀ v, .name v ∈ pieces → v.name ≠ [] ∧ Binary64.isFinite v.value = true) :
    ∃ p', (ofCells cells p).appendAll next pieces =
        .ok (ofCells (cells ++ Piece.cells next pieces) p') ∧
      (ofCells (cells ++ Piece.cells next pieces) p').Layout
        (cells ++ Piece.cells next pieces) := by
  induction pieces generalizing cells p next with
  | nil =>
    rw [Piece.cells, List.append_nil]
    exact ⟨p, rfl, h⟩
  | cons piece pieces ih =>
    have hvalid' := fun v hv => hvalid v (List.mem_cons_of_mem _ hv)
    cases piece with
    | plain t =>
      have hids' : ∀ id ∈ Cell.ids (cells ++ t.map char), id < next := by simpa using hids
      have ih' := ih (run_insertText_ofCells h t).2 hids' hvalid'
      rw [List.append_assoc] at ih'
      rw [appendAll, append_plain h]
      exact ih'
    | name v =>
      obtain ⟨hname, hvalue⟩ := hvalid v List.mem_cons_self
      have hv : (⟨next, v.name, v.value⟩ : Suggestion).Valid := ⟨hname, hvalue⟩
      have hid : (next : Int) ∉ Cell.ids cells := fun hmem => Int.lt_irrefl _ (hids _ hmem)
      have hids' : ∀ id ∈ Cell.ids (cells ++ [tag ⟨next, v.name, v.value⟩]),
          id < ((next + 1 : Nat) : Int) :=
        ids_lt_of_next (by rwa [List.append_nil]) rfl
      -- The next id is still above all that have been given.
      have ih' := ih (run_insertTag_ofCells h hv hid).2 hids' hvalid'
      rw [List.append_assoc] at ih'
      rw [appendAll, append_name h hv hid]
      exact ih'

/-- The cells of a formula in which the names of variables are tags. -/
def formulaCells (t : Text) (known : List Variable) : List Cell :=
  Piece.cells 1 (Piece.split (Variable.byLength known) [] t)

/-- With finite variables every formula can be tagged, and the buffer is that of its cells with
the cursor at the end. -/
theorem ofFormula_eq {known : List Variable}
    (hknown : ∀ v ∈ known, Binary64.isFinite v.value = true) (t : Text) :
    ofFormula t known = .ok (ofCells (formulaCells t known) (extent (formulaCells t known))) ∧
      WellFormed (formulaCells t known) := by
  have hvalid : ∀ v, .name v ∈ Piece.split (Variable.byLength known) [] t →
      v.name ≠ [] ∧ Binary64.isFinite v.value = true := by
    intro v hv
    have hmem := List.mem_mergeSort.1 (Piece.mem_of_mem_split hv)
    obtain ⟨hmem, hname⟩ := List.mem_filter.1 hmem
    exact ⟨by simpa using hname, hknown v hmem⟩
  have hempty : (ofCells [] 0).Layout [] := layout_ofCells wellFormed_nil (by decide) (by decide)
  have hids : ∀ id ∈ Cell.ids [], id < ((1 : Nat) : Int) := List.forall_mem_nil _
  obtain ⟨p, hrun, hlayout⟩ := appendAll_ofCells hempty hids hvalid
  refine ⟨?_, hlayout.wellFormed⟩
  have hstart : empty.appendAll 1 (Piece.split (Variable.byLength known) [] t) =
      .ok (ofCells (formulaCells t known) p) := hrun
  rw [ofFormula, hstart]
  rfl

end Buffer

end TagFormula
