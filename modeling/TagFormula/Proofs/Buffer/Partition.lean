import Mathlib.Data.List.Chain
import TagFormula.Proofs.Buffer.Tagging

/-!
# What a rendered buffer says

The segments of a buffer part its text: each starts where those before it end, no run of
plain text is empty, and no two runs touch (`Buffer.Parts`). Nothing is lost by
rendering, since a new buffer into which the segments are put one after the other has the
text and the tags (`Buffer.render_lossless`).

That two runs never touch lies in the way segments are collected, whatever the tags are. That
every run is as long as the gap it fills takes tags which stand one behind the other in the
text (`Tag.InOrder`).
-/

namespace TagFormula

open Cell

/-- Tags stand one behind the other between an offset and the end of a text. -/
def Tag.InOrder (length : Int) : Int → List Tag → Prop
  | last, [] => last ≤ length
  | last, t :: tags => last ≤ t.position ∧ Tag.InOrder length t.stop tags

namespace Tag.InOrder

variable {length last : Int} {t : Tag} {tags : List Tag}

theorem last_le (h : Tag.InOrder length last tags) : last ≤ length := by
  induction tags generalizing last with
  | nil => exact h
  | cons t tags ih =>
    have hstop := ih h.2
    exact Int.le_trans h.1 (Int.le_trans t.position_le_stop hstop)

theorem position_le (h : Tag.InOrder length last (t :: tags)) : t.position ≤ length :=
  Int.le_trans t.position_le_stop h.2.last_le

/-- The tags of a row stand in order in every text that is long enough. -/
theorem tagsFrom {p : Int} {cells : List Cell} (hlast : last ≤ p)
    (hlength : p + extent cells ≤ length) : Tag.InOrder length last (tagsFrom p cells) := by
  induction cells generalizing last p with
  | nil =>
    rw [extent_nil] at hlength
    exact Int.le_trans hlast (by omega)
  | cons c cells ih =>
    rw [extent_cons, Int.natCast_add, ← Int.add_assoc] at hlength
    cases c with
    | char c => exact ih (Int.le_trans hlast (by omega)) hlength
    | tag s => exact ⟨hlast, ih (Int.le_refl _) hlength⟩

end Tag.InOrder

namespace Segment

/-- The tag of a segment. -/
def tag? : Segment → Option Tag
  | text _ _ => none
  | tag t => some t

/-- One of two segments at least is a tag. -/
def Apart (g h : Segment) : Prop :=
  g.tag?.isSome = true ∨ h.tag?.isSome = true

/-- Segments start one where the other ends, from an offset on. -/
def Contiguous : Int → List Segment → Prop
  | _, [] => True
  | p, g :: segments => g.start = p ∧ Contiguous (p + g.content.length) segments

/-- A segment starts where the text of those before it ends. -/
theorem Contiguous.start_eq {p : Int} {l r : List Segment} {g : Segment}
    (h : Contiguous p (l ++ g :: r)) : g.start = p + (l.flatMap content).length := by
  induction l generalizing p with
  | nil =>
    rw [List.flatMap_nil, List.length_nil, Int.natCast_zero, Int.add_zero]
    exact h.1
  | cons k l ih =>
    rw [ih h.2, List.flatMap_cons, List.length_append, Int.natCast_add, Int.add_assoc]

theorem content_eq (g : Segment) : g.content = contents g.cells := by
  cases g with
  | text start t => exact (contents_map_char t).symm
  | tag t => exact (List.append_nil _).symm

end Segment

namespace Buffer

open Segment

/-! ## Collecting the segments -/

section

variable {start stop : Int} {run : Text} {segments : List Segment}

theorem filterMap_tag?_run (start stop : Int) (run : Text) (segments : List Segment) :
    ((if start < stop then [Segment.text start run] else []) ++ segments).filterMap tag? =
      segments.filterMap tag? := by
  split <;> rfl

theorem isChain_run (start stop : Int) (run : Text) (h : segments.IsChain Apart)
    (hhead : ∀ g ∈ segments.head?, g.tag?.isSome) :
    ((if start < stop then [Segment.text start run] else []) ++ segments).IsChain Apart := by
  split
  · exact List.isChain_cons.2 ⟨fun g hg => .inr (hhead g hg), h⟩
  · exact h

theorem contiguous_run (h : start + run.length = stop) (hrest : Contiguous stop segments) :
    Contiguous start ((if start < stop then [Segment.text start run] else []) ++ segments) := by
  split
  next => exact ⟨rfl, h ▸ hrest⟩
  next hle =>
    have hstart : start = stop := by omega
    exact hstart ▸ hrest

theorem ne_nil_of_mem_run (h : start + run.length = stop) {p : Int} {t : Text}
    (hmem : Segment.text p t ∈ if start < stop then [Segment.text start run] else []) :
    t ≠ [] := by
  split at hmem
  next hlt =>
    obtain ⟨rfl, rfl⟩ := Segment.text.inj (List.mem_singleton.1 hmem)
    rintro rfl
    rw [List.length_nil] at h
    omega
  next => exact absurd hmem List.not_mem_nil

end

theorem filterMap_tag?_segmentsFrom (text : Text) (last : Int) (tags : List Tag) :
    (segmentsFrom text last tags).filterMap tag? = tags := by
  induction tags generalizing last with
  | nil =>
    have hrun := filterMap_tag?_run last text.length (Slice.after text last) []
    rwa [List.append_nil] at hrun
  | cons t tags ih =>
    rw [segmentsFrom, filterMap_tag?_run]
    exact congrArg (t :: ·) (ih t.stop)

theorem isChain_segmentsFrom (text : Text) (last : Int) (tags : List Tag) :
    (segmentsFrom text last tags).IsChain Apart := by
  induction tags generalizing last with
  | nil =>
    have hrun := isChain_run last text.length (Slice.after text last) .nil
      (fun g hg => nomatch hg)
    rwa [List.append_nil] at hrun
  | cons t tags ih =>
    refine isChain_run _ _ _ (List.isChain_cons.2 ⟨fun g _ => .inl rfl, ih t.stop⟩) ?_
    rintro g ⟨⟩
    rfl

/-- With tags in order the runs of plain text fill the gaps, and no gap is given out that is
empty. -/
theorem contiguous_segmentsFrom {text : Text} {last : Int} {tags : List Tag} (h₀ : 0 ≤ last)
    (h : Tag.InOrder text.length last tags) :
    Contiguous last (segmentsFrom text last tags) ∧
      ∀ p t, .text p t ∈ segmentsFrom text last tags → t ≠ [] := by
  induction tags generalizing last with
  | nil =>
    have hlength := Slice.add_length_after text h₀ h
    have hrest : Contiguous text.length [] := trivial
    have hrun := contiguous_run hlength hrest
    rw [List.append_nil] at hrun
    exact ⟨hrun, fun p t => ne_nil_of_mem_run hlength⟩
  | cons t tags ih =>
    have hlength := Slice.add_length_between text h₀ h.1 h.position_le
    have hstop : 0 ≤ t.stop := Int.le_trans h₀ (Int.le_trans h.1 t.position_le_stop)
    obtain ⟨hrest, hne⟩ := ih hstop h.2
    refine ⟨contiguous_run hlength ⟨rfl, hrest⟩, fun p u hmem => ?_⟩
    rcases List.mem_append.1 hmem with hmem | hmem
    · exact ne_nil_of_mem_run hlength hmem
    · rcases List.mem_cons.1 hmem with heq | hmem
      · exact nomatch heq
      · exact hne p u hmem

/-! ## The segments of a buffer -/

/-- Segments part the text of a buffer into its tags and the plain text between them. -/
structure Parts (segments : List Segment) (b : Buffer) : Prop where
  contents_eq : segments.flatMap Segment.content = b.text
  start_eq : ∀ l g r, segments = l ++ g :: r → g.start = (l.flatMap Segment.content).length
  text_ne_nil : ∀ p t, .text p t ∈ segments → t ≠ []
  /-- No two runs of plain text touch. -/
  isChain_apart : segments.IsChain Apart
  tags_perm : (segments.filterMap tag?).Perm b.tags
  ascending : (segments.filterMap tag?).Pairwise fun t u => t.position < u.position

variable {b : Buffer} {cells : List Cell}

theorem Layout.parts_render (h : b.Layout cells) : Parts b.render b := by
  have hinOrder : Tag.InOrder b.text.length 0 b.sortedTags := by
    rw [h.sortedTags_eq, h.text_eq, ← extent]
    exact .tagsFrom (Int.le_refl 0) (by omega)
  obtain ⟨hcontiguous, hne⟩ := contiguous_segmentsFrom (Int.le_refl 0) hinOrder
  have htags : b.render.filterMap tag? = b.sortedTags := filterMap_tag?_segmentsFrom _ _ _
  have hcontent : Segment.content = fun g => g.cells.flatMap Cell.content :=
    funext Segment.content_eq
  refine ⟨?_, ?_, hne, isChain_segmentsFrom _ _ _, ?_, ?_⟩
  · rw [hcontent, ← List.flatMap_assoc, h.flatMap_cells_render, ← contents, h.text_eq]
  · intro l g r heq
    have hstart : Contiguous 0 (l ++ g :: r) := heq ▸ hcontiguous
    rw [hstart.start_eq, Int.zero_add]
  · rw [htags, h.sortedTags_eq]
    exact h.tags_perm.symm
  · rw [htags, h.sortedTags_eq]
    refine (pairwise_tagsFrom 0 cells).imp_of_mem fun ht _ htu => ?_
    exact Int.lt_of_lt_of_le (h.wellFormed.position_lt_stop ht) htu

/-! ## Putting segments in -/

/-- Puts a segment in at the end. -/
def putIn : Segment → Edit Unit
  | .text _ t => do
    insertText (← get).length t
  | .tag t => do
    let _ ← insertTag t.toSuggestion (← get).length

/-- Puts segments in at the end one after the other. -/
def rebuild : List Segment → Edit Unit
  | [] => return ()
  | g :: segments => do
    putIn g
    rebuild segments

theorem run_putIn_ofCells {p : Int} {g : Segment} (h : (ofCells cells p).Layout cells)
    (hw : WellFormed (cells ++ g.cells)) :
    ∃ p', (putIn g).run (ofCells cells p) = .ok () (ofCells (cells ++ g.cells) p') ∧
      (ofCells (cells ++ g.cells) p').Layout (cells ++ g.cells) := by
  have hlength : (ofCells cells p).length = extent cells := rfl
  cases g with
  | text start t =>
    obtain ⟨hrun, hlayout⟩ := run_insertText_ofCells h t
    refine ⟨p, ?_, hlayout⟩
    rw [putIn, EStateM.run_bind, EStateM.run_get]
    exact hrun
  | tag t =>
    have hvalid : t.toSuggestion.Valid :=
      hw.valid _ (List.mem_append_right _ List.mem_cons_self)
    obtain ⟨hrun, hlayout⟩ := run_insertTag_ofCells h hvalid hw.not_mem_ids.1
    refine ⟨_, ?_, hlayout⟩
    rw [putIn, EStateM.run_bind, EStateM.run_get]
    exact run_bind_of_ok hrun

/-- Segments put in behind a row add their cells to it. -/
theorem run_rebuild_ofCells {p : Int} {segments : List Segment}
    (h : (ofCells cells p).Layout cells)
    (hw : WellFormed (cells ++ segments.flatMap Segment.cells)) :
    ∃ p', (rebuild segments).run (ofCells cells p) =
      .ok () (ofCells (cells ++ segments.flatMap Segment.cells) p') := by
  induction segments generalizing cells p with
  | nil =>
    rw [List.flatMap_nil, List.append_nil]
    exact ⟨p, rfl⟩
  | cons g segments ih =>
    rw [List.flatMap_cons, ← List.append_assoc] at hw ⊢
    obtain ⟨p₁, hrun, hlayout⟩ := run_putIn_ofCells h hw.of_append_left
    obtain ⟨p₂, hrest⟩ := ih hlayout hw
    exact ⟨p₂, by rw [rebuild, run_bind_of_ok hrun, hrest]⟩

/-- The segments of every buffer that edits lead to part it, and put into a new buffer they are
never refused and give the same text with the same tags. -/
theorem render_lossless (ops : List Operation) :
    Parts (after ops).render (after ops) ∧
      ∃ b, empty.apply (rebuild (after ops).render) = (.ok (), b) ∧
        b.text = (after ops).text ∧ b.tags.Perm (after ops).tags := by
  obtain ⟨cells, h⟩ := layout_after ops
  have hempty : (ofCells [] 0).Layout [] := layout_ofCells wellFormed_nil (by decide) (by decide)
  have hw : WellFormed ([] ++ (after ops).render.flatMap Segment.cells) := by
    rw [List.nil_append, h.flatMap_cells_render]
    exact h.wellFormed
  obtain ⟨p, hrun⟩ := run_rebuild_ofCells hempty hw
  rw [List.nil_append, h.flatMap_cells_render] at hrun
  exact ⟨h.parts_render, _, apply_of_run_ok hrun, h.text_eq.symm, h.tags_perm.symm⟩

end Buffer

end TagFormula
