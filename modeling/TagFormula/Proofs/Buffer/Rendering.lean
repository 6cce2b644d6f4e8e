import TagFormula.Buffer.Rendering
import TagFormula.Proofs.Buffer.Layout

/-!
# Filling in the variables

Given a text for every variable, a formula can be written out in two ways. A
rendered buffer is written out segment by segment, where the plain text comes in
runs that are cut out of the text by offsets. A row of cells is written out cell by
cell, and there are no offsets. For a laid out buffer the segments show the cells of
the row (`Layout.flatMap_cells_render`), so the results are the same
(`Layout.filled_eq`).

The segments are collected from left to right with the plain text not yet given out
lying between the last tag and the current offset. That pending run is what the
induction on the row has to carry along.
-/

namespace TagFormula

/-- The cells that a segment shows. -/
def Segment.cells : Segment → List Cell
  | text _ t => t.map .char
  | tag t => [.tag t.toSuggestion]

/-- The text of a segment when the variables are written as `f` says. -/
def Segment.written (f : Suggestion → Text) : Segment → Text
  | text _ t => t
  | tag t => f t.toSuggestion

/-- The rendered text of a buffer when the variables are written as `f` says. -/
def Buffer.filled (f : Suggestion → Text) (b : Buffer) : Text :=
  b.render.flatMap (Segment.written f)

namespace Cell

/-- The text of a cell when the variables are written as `f` says. -/
def written (f : Suggestion → Text) : Cell → Text
  | char c => [c]
  | tag s => f s

/-- The text of a row of cells when the variables are written as `f` says. -/
def filled (f : Suggestion → Text) (cells : List Cell) : Text :=
  cells.flatMap (written f)

@[simp] theorem filled_nil (f : Suggestion → Text) : filled f [] = [] := rfl

@[simp] theorem filled_cons (f : Suggestion → Text) (c : Cell) (cells : List Cell) :
    filled f (c :: cells) = c.written f ++ filled f cells := rfl

@[simp] theorem filled_append (f : Suggestion → Text) (l r : List Cell) :
    filled f (l ++ r) = filled f l ++ filled f r := by
  simp [filled]

theorem filled_map_char (f : Suggestion → Text) (t : Text) : filled f (t.map char) = t := by
  induction t with
  | nil => rfl
  | cons c t ih => simp [written, ih]

end Cell

theorem Segment.written_eq (f : Suggestion → Text) (g : Segment) :
    g.written f = Cell.filled f g.cells := by
  cases g with
  | text start t => exact (Cell.filled_map_char f t).symm
  | tag t => exact (List.append_nil _).symm

namespace Buffer

open Cell

/-- A run of plain text gives a segment only when it is not empty. -/
theorem flatMap_run {start stop : Int} {run : Text} (h : stop = start + run.length) :
    (if start < stop then [Segment.text start run] else []).flatMap Segment.cells =
      run.map char := by
  cases run with
  | nil =>
      have hlt : ¬ start < stop := by
        rw [h, List.length_nil]
        omega
      rw [if_neg hlt, List.flatMap_nil, List.map_nil]
  | cons c run =>
      have hlt : start < stop := by
        rw [List.length_cons] at h
        omega
      rw [if_pos hlt, List.flatMap_singleton, Segment.cells]

/-- The segments behind `pre`, where `run` has been passed over but not given out. -/
theorem flatMap_segmentsFrom (pre run : Text) (cells : List Cell) :
    (segmentsFrom (pre ++ (run ++ contents cells)) pre.length
        (tagsFrom (pre.length + run.length) cells)).flatMap Segment.cells =
      run.map char ++ cells := by
  induction cells generalizing pre run with
  | nil =>
      rw [tagsFrom_nil, segmentsFrom, Slice.after_append, contents_nil, List.append_nil,
        List.append_nil, List.length_append]
      exact flatMap_run (Int.natCast_add _ _)
  | cons c cells ih =>
      cases c with
      | char c =>
          have htext : pre ++ (run ++ contents (char c :: cells)) =
              pre ++ ((run ++ [c]) ++ contents cells) := by simp [content]
          have hoffset : (pre.length + run.length + 1 : Int) = pre.length + (run ++ [c]).length := by
            rw [List.length_append, List.length_singleton]
            omega
          rw [tagsFrom, htext, hoffset, ih pre (run ++ [c])]
          simp
      | tag s =>
          have hstop : (Tag.ofSuggestion s (pre.length + run.length)).stop =
              ((pre ++ run ++ s.name).length : Int) := by
            simp [Tag.stop, Tag.ofSuggestion, Int.add_assoc]
          have hoffset : (pre.length + run.length + s.name.length : Int) =
              (pre ++ run ++ s.name).length + ([] : Text).length := by simp [Int.add_assoc]
          have htext : pre ++ (run ++ contents (tag s :: cells)) =
              (pre ++ run ++ s.name) ++ ([] ++ contents cells) := by simp [content]
          have hrun : Slice.between (pre ++ (run ++ contents (tag s :: cells))) pre.length
              (Tag.ofSuggestion s (pre.length + run.length)).position = run :=
            Slice.between_append pre run _
          have hpos : (Tag.ofSuggestion s (pre.length + run.length)).position =
              pre.length + run.length := rfl
          rw [tagsFrom, segmentsFrom, hrun, List.flatMap_append, flatMap_run hpos,
            List.flatMap_cons, hstop, hoffset, htext, ih (pre ++ run ++ s.name) []]
          rfl

variable {b : Buffer} {cells : List Cell}

/-- The segments of a laid out buffer show its row. -/
theorem Layout.flatMap_cells_render (h : b.Layout cells) : b.render.flatMap Segment.cells = cells := by
  have hsegments := flatMap_segmentsFrom [] [] cells
  rw [render, h.sortedTags_eq, h.text_eq]
  simpa using hsegments

/-- Segment by segment or cell by cell, the text written is the same. -/
theorem Layout.filled_eq (f : Suggestion → Text) (h : b.Layout cells) :
    b.filled f = Cell.filled f cells := by
  have hwritten : Segment.written f = fun g => g.cells.flatMap (Cell.written f) :=
    funext (Segment.written_eq f)
  rw [Buffer.filled, hwritten, ← List.flatMap_assoc, h.flatMap_cells_render, Cell.filled]

end Buffer

end TagFormula
