import TagFormula.Tag
import TagFormula.Proofs.Slice

/-!
# Cells

A formula can be read as a row of cells: characters of plain text, and variables,
each of which is one cell however long its name is. Offsets do not occur in the
cells. They are computed from them, by carrying the offset along: `tagsFrom p
cells` are the tags of a row of cells that starts at the offset `p`, in the order
of the text.

The central lemma is `mem_tagsFrom_iff`. A tag belongs to the row exactly when
the row can be parted at a cell of this variable and the tag is anchored where
the cells before it end. Bounds, the text of a span and the order of the tags are
all read off from that.
-/

namespace TagFormula

/-- A cell of a formula: a character, or a variable as a whole. -/
inductive Cell where
  /-- A character of plain text. -/
  | char (c : Char)
  /-- A variable. -/
  | tag (s : Suggestion)

namespace Cell

/-- The text that a cell stands for. -/
def content : Cell → Text
  | char c => [c]
  | tag s => s.name

/-- The id of the variable of a cell. -/
def id? : Cell → Option Int
  | char _ => none
  | tag s => some s.id

/-- The number of characters of a cell. -/
def width (c : Cell) : Nat :=
  c.content.length

/-- The text of a row of cells. -/
def contents (cells : List Cell) : Text :=
  cells.flatMap content

/-- The number of characters of a row of cells. -/
def extent (cells : List Cell) : Nat :=
  (contents cells).length

/-- The ids of the variables in a row of cells. -/
def ids (cells : List Cell) : List Int :=
  cells.filterMap id?

/-- The tags of a row of cells that starts at an offset. -/
def tagsFrom : Int → List Cell → List Tag
  | _, [] => []
  | p, char _ :: cells => tagsFrom (p + 1) cells
  | p, tag s :: cells => Tag.ofSuggestion s p :: tagsFrom (p + s.name.length) cells

/-- The variables of a row of cells are told apart by their ids, and each has a
name and a finite value. -/
structure WellFormed (cells : List Cell) : Prop where
  nodup_ids : (ids cells).Nodup
  valid : ∀ s, tag s ∈ cells → s.Valid

/-! ## Text and width -/

@[simp] theorem contents_nil : contents [] = [] := rfl

@[simp] theorem contents_cons (c : Cell) (cells : List Cell) :
    contents (c :: cells) = c.content ++ contents cells := rfl

@[simp] theorem contents_append (l r : List Cell) :
    contents (l ++ r) = contents l ++ contents r := by
  simp [contents]

theorem contents_map_char (s : Text) : contents (s.map char) = s := by
  induction s with
  | nil => rfl
  | cons c s ih => simp [content, ih]

@[simp] theorem extent_nil : extent [] = 0 := rfl

@[simp] theorem extent_cons (c : Cell) (cells : List Cell) :
    extent (c :: cells) = c.width + extent cells := by
  simp [extent, width]

@[simp] theorem extent_append (l r : List Cell) :
    extent (l ++ r) = extent l + extent r := by
  simp [extent]

@[simp] theorem extent_map_char (s : Text) : extent (s.map char) = s.length := by
  rw [extent, contents_map_char]

@[simp] theorem width_char (c : Char) : (char c).width = 1 := rfl

@[simp] theorem width_tag (s : Suggestion) : (tag s).width = s.name.length := rfl

/-! ## Ids -/

@[simp] theorem ids_nil : ids [] = [] := rfl

@[simp] theorem ids_char (c : Char) (cells : List Cell) : ids (char c :: cells) = ids cells := rfl

@[simp] theorem ids_tag (s : Suggestion) (cells : List Cell) :
    ids (tag s :: cells) = s.id :: ids cells := rfl

@[simp] theorem ids_append (l r : List Cell) : ids (l ++ r) = ids l ++ ids r := by
  simp [ids]

@[simp] theorem ids_map_char (s : Text) : ids (s.map char) = [] := by
  induction s with
  | nil => rfl
  | cons c s ih => simpa using ih

/-- With a variable that has the next id, the ids are below the one that comes then. -/
theorem ids_lt_of_next {l r : List Cell} {s : Suggestion} {next : Int}
    (h : ∀ id ∈ ids (l ++ r), id < next) (hs : s.id = next) :
    ∀ id ∈ ids (l ++ tag s :: r), id < next + 1 := by
  intro id hid
  rw [ids_append, ids_tag, List.perm_middle.mem_iff, ← ids_append, List.mem_cons] at hid
  rcases hid with rfl | hid
  · rw [hs]
    exact Int.lt_succ _
  · exact Int.lt_trans (h id hid) (Int.lt_succ _)

theorem mem_ids_iff {id : Int} {cells : List Cell} :
    id ∈ ids cells ↔ ∃ s, tag s ∈ cells ∧ s.id = id := by
  rw [ids, List.mem_filterMap]
  constructor
  · rintro ⟨c, hc, hid⟩
    cases c with
    | char c => simp [id?] at hid
    | tag s => exact ⟨s, hc, by simpa [id?] using hid⟩
  · rintro ⟨s, hs, rfl⟩
    exact ⟨tag s, hs, rfl⟩

/-! ## Tags -/

@[simp] theorem tagsFrom_nil (p : Int) : tagsFrom p [] = [] := rfl

theorem tagsFrom_append (p : Int) (l r : List Cell) :
    tagsFrom p (l ++ r) = tagsFrom p l ++ tagsFrom (p + extent l) r := by
  induction l generalizing p with
  | nil => simp
  | cons c l ih =>
      cases c with
      | char c => simp [tagsFrom, ih, Int.add_assoc]
      | tag s => simp [tagsFrom, ih, Int.add_assoc]

theorem tagsFrom_map_char (p : Int) (s : Text) : tagsFrom p (s.map char) = [] := by
  induction s generalizing p with
  | nil => rfl
  | cons c s ih => exact ih (p + 1)

theorem tagsFrom_shifted (p d : Int) (cells : List Cell) :
    (tagsFrom p cells).map (·.shifted d) = tagsFrom (p + d) cells := by
  induction cells generalizing p with
  | nil => rfl
  | cons c cells ih =>
      cases c with
      | char c =>
          have hp : p + 1 + d = p + d + 1 := by omega
          rw [tagsFrom, tagsFrom, ih, hp]
      | tag s =>
          have hp : p + s.name.length + d = p + d + s.name.length := by omega
          rw [tagsFrom, tagsFrom, List.map_cons, ih, hp]
          rfl

theorem map_id_tagsFrom (p : Int) (cells : List Cell) :
    (tagsFrom p cells).map (·.id) = ids cells := by
  induction cells generalizing p with
  | nil => rfl
  | cons c cells ih =>
      cases c with
      | char c => exact ih (p + 1)
      | tag s => simp [tagsFrom, ih, Tag.ofSuggestion]

/-- A tag of a row of cells is a cell of the row, anchored where the cells before
it end. -/
theorem mem_tagsFrom_iff {p : Int} {cells : List Cell} {t : Tag} :
    t ∈ tagsFrom p cells ↔
      ∃ l r, cells = l ++ tag t.toSuggestion :: r ∧ t.position = p + extent l := by
  constructor
  · intro h
    induction cells generalizing p with
    | nil => simp at h
    | cons c cells ih =>
        cases c with
        | char c =>
            obtain ⟨l, r, rfl, hp⟩ := ih h
            exact ⟨char c :: l, r, rfl, by simp only [extent_cons, width_char]; omega⟩
        | tag s =>
            rcases List.mem_cons.1 h with rfl | h
            · exact ⟨[], cells, rfl, by simp [Tag.ofSuggestion]⟩
            · obtain ⟨l, r, rfl, hp⟩ := ih h
              exact ⟨tag s :: l, r, rfl, by simp only [extent_cons, width_tag]; omega⟩
  · rintro ⟨l, r, rfl, hp⟩
    rw [tagsFrom_append, tagsFrom, ← hp]
    simp [Tag.ofSuggestion]

/-- A tag lies inside its row. -/
theorem bounds_of_mem_tagsFrom {p : Int} {cells : List Cell} {t : Tag}
    (h : t ∈ tagsFrom p cells) : p ≤ t.position ∧ t.stop ≤ p + extent cells := by
  obtain ⟨l, r, rfl, hp⟩ := mem_tagsFrom_iff.1 h
  simp only [Tag.stop, extent_append, extent_cons, width_tag]
  omega

theorem mem_of_mem_tagsFrom {p : Int} {cells : List Cell} {t : Tag}
    (h : t ∈ tagsFrom p cells) : tag t.toSuggestion ∈ cells := by
  obtain ⟨l, r, rfl, -⟩ := mem_tagsFrom_iff.1 h
  simp

/-- The tags of a row come in the order of the text, and no two overlap. -/
theorem pairwise_tagsFrom (p : Int) (cells : List Cell) :
    (tagsFrom p cells).Pairwise fun t u => t.stop ≤ u.position := by
  induction cells generalizing p with
  | nil => exact List.Pairwise.nil
  | cons c cells ih =>
      cases c with
      | char c => exact ih (p + 1)
      | tag s =>
          refine List.Pairwise.cons ?_ (ih _)
          intro u hu
          exact (bounds_of_mem_tagsFrom hu).1

/-- Two tags of a row that share an offset are the same. -/
theorem eq_of_mem_tagsFrom {p : Int} {cells : List Cell} {t u : Tag}
    (ht : t ∈ tagsFrom p cells) (hu : u ∈ tagsFrom p cells)
    (htu : t.position < u.stop) (hut : u.position < t.stop) : t = u := by
  induction cells generalizing p with
  | nil => simp at ht
  | cons c cells ih =>
      cases c with
      | char c => exact ih ht hu
      | tag s =>
          have hstop : (Tag.ofSuggestion s p).stop = p + s.name.length := rfl
          rcases List.mem_cons.1 ht with rfl | ht <;> rcases List.mem_cons.1 hu with rfl | hu
          · rfl
          · have := (bounds_of_mem_tagsFrom hu).1
            omega
          · have := (bounds_of_mem_tagsFrom ht).1
            omega
          · exact ih ht hu

/-! ## Rows of valid variables -/

theorem wellFormed_nil : WellFormed [] :=
  ⟨List.nodup_nil, by simp⟩

/-- Dropping variables and changing characters leaves a row of valid variables. -/
theorem WellFormed.mono {cells cells' : List Cell} (h : WellFormed cells)
    (hids : (ids cells').Sublist (ids cells))
    (hmem : ∀ s, tag s ∈ cells' → tag s ∈ cells) : WellFormed cells' :=
  ⟨h.nodup_ids.sublist hids, fun s hs => h.valid s (hmem s hs)⟩

theorem WellFormed.of_sublist {cells cells' : List Cell} (h : WellFormed cells)
    (hsub : cells'.Sublist cells) : WellFormed cells' :=
  h.mono (hsub.filterMap id?) fun _ hs => hsub.subset hs

theorem WellFormed.of_append_left {l r : List Cell} (h : WellFormed (l ++ r)) :
    WellFormed l :=
  h.of_sublist (List.sublist_append_left l r)

theorem WellFormed.of_append_right {l r : List Cell} (h : WellFormed (l ++ r)) :
    WellFormed r :=
  h.of_sublist (List.sublist_append_right l r)

theorem WellFormed.insert_text {l r : List Cell} (h : WellFormed (l ++ r)) (s : Text) :
    WellFormed (l ++ (s.map char ++ r)) := by
  refine h.mono ?_ ?_
  · simp
  · intro v hv
    simpa using hv

theorem WellFormed.insert_tag {l r : List Cell} (h : WellFormed (l ++ r)) {s : Suggestion}
    (hs : s.Valid) (hid : s.id ∉ ids (l ++ r)) : WellFormed (l ++ tag s :: r) where
  nodup_ids := by
    have hperm : (ids (l ++ tag s :: r)).Perm (s.id :: ids (l ++ r)) := by
      rw [ids_append, ids_append, ids_tag]
      exact List.perm_middle
    exact hperm.nodup_iff.2 (List.nodup_cons.2 ⟨hid, h.nodup_ids⟩)
  valid v hv := by
    have hv' : v = s ∨ tag v ∈ l ++ r := by
      simp only [List.mem_append, List.mem_cons, tag.injEq] at hv ⊢
      exact or_left_comm.1 hv
    rcases hv' with rfl | hv'
    · exact hs
    · exact h.valid v hv'

/-- The id of a variable occurs nowhere else in its row. -/
theorem WellFormed.not_mem_ids {l r : List Cell} {s : Suggestion}
    (h : WellFormed (l ++ tag s :: r)) : s.id ∉ ids l ∧ s.id ∉ ids r := by
  have hnodup := h.nodup_ids
  rw [ids_append, ids_tag] at hnodup
  obtain ⟨-, hright, hleft⟩ := List.nodup_append.1 hnodup
  exact ⟨fun hmem => hleft s.id hmem s.id (List.mem_cons_self ..) rfl,
    (List.nodup_cons.1 hright).1⟩

/-- When cells are taken out of a row, the ids that remain are those that are not
taken out. -/
theorem WellFormed.mem_ids_iff_not_mem {l m r : List Cell} (h : WellFormed (l ++ (m ++ r)))
    {id : Int} (hid : id ∈ ids (l ++ (m ++ r))) : id ∈ ids (l ++ r) ↔ id ∉ ids m := by
  have hnodup := h.nodup_ids
  simp only [ids_append, List.mem_append] at hid hnodup ⊢
  obtain ⟨-, hright, hleft⟩ := List.nodup_append.1 hnodup
  constructor
  · rintro (hl | hr) hm
    · exact hleft id hl id (List.mem_append_left _ hm) rfl
    · exact (List.nodup_append.1 hright).2.2 id hm id hr rfl
  · intro hm
    rcases hid with hl | hm' | hr
    · exact .inl hl
    · exact absurd hm' hm
    · exact .inr hr

/-- A variable in a row takes up at least one character. -/
theorem WellFormed.position_lt_stop {p : Int} {cells : List Cell} (h : WellFormed cells)
    {t : Tag} (ht : t ∈ tagsFrom p cells) : t.position < t.stop :=
  Tag.position_lt_stop (h.valid _ (mem_of_mem_tagsFrom ht)).name_ne_nil

/-- The tags of a row have one order only in which their positions do not decrease. -/
theorem WellFormed.eq_tagsFrom {p : Int} {cells : List Cell} (h : WellFormed cells)
    {tags : List Tag} (hperm : tags.Perm (tagsFrom p cells))
    (hsorted : tags.Pairwise fun t u => t.position ≤ u.position) : tags = tagsFrom p cells := by
  have hrow : (tagsFrom p cells).Pairwise fun t u => t.position ≤ u.position := by
    refine (pairwise_tagsFrom p cells).imp_of_mem ?_
    intro t u ht _ htu
    have := h.position_lt_stop ht
    omega
  refine List.Perm.eq_of_pairwise ?_ hsorted hrow hperm
  intro t u ht hu htu hut
  have ht' := h.position_lt_stop (hperm.mem_iff.1 ht)
  have hu' := h.position_lt_stop hu
  exact eq_of_mem_tagsFrom (hperm.mem_iff.1 ht) hu (by omega) (by omega)

theorem WellFormed.width_pos {cells : List Cell} (h : WellFormed cells) {c : Cell}
    (hc : c ∈ cells) : 0 < c.width := by
  cases c with
  | char c => exact Nat.one_pos
  | tag s => exact List.length_pos_iff.2 (h.valid s hc).name_ne_nil

theorem WellFormed.eq_nil_of_extent {cells : List Cell} (h : WellFormed cells)
    (hextent : extent cells = 0) : cells = [] := by
  cases cells with
  | nil => rfl
  | cons c cells =>
      have hpos := h.width_pos (List.mem_cons_self ..)
      rw [extent_cons] at hextent
      omega

/-- Of two joints of a row the one further to the left parts the cells before the
other. -/
theorem WellFormed.exists_middle {l r l' r' : List Cell} (h : WellFormed (l ++ r))
    (heq : l ++ r = l' ++ r') (hle : extent l ≤ extent l') :
    ∃ m, l' = l ++ m ∧ r = m ++ r' := by
  rcases List.append_eq_append_iff.1 heq with ⟨m, hl, hr⟩ | ⟨m, hl, hr⟩
  · exact ⟨m, hl, hr⟩
  · have hm : m = [] := by
      refine WellFormed.eq_nil_of_extent ?_ ?_
      · rw [hl] at h
        exact h.of_append_left.of_append_right
      · rw [hl, extent_append] at hle
        omega
    subst hm
    exact ⟨[], by simpa using hl.symm, by simpa using hr.symm⟩

/-- An offset names one joint of a row at most. -/
theorem WellFormed.append_inj {l r l' r' : List Cell} (h : WellFormed (l ++ r))
    (heq : l ++ r = l' ++ r') (hextent : extent l = extent l') : l = l' ∧ r = r' := by
  obtain ⟨m, rfl, rfl⟩ := h.exists_middle heq (Nat.le_of_eq hextent)
  have hm : m = [] := by
    refine h.of_append_right.of_append_left.eq_nil_of_extent ?_
    rw [extent_append] at hextent
    omega
  subst hm
  exact ⟨(List.append_nil l).symm, rfl⟩

/-- An offset in a row that lies strictly inside no tag is a joint of the row. -/
theorem exists_joint {q p : Int} {cells : List Cell} (hq : q ≤ p) (hp : p ≤ q + extent cells)
    (hout : ∀ t ∈ tagsFrom q cells, ¬ (t.position < p ∧ p < t.stop)) :
    ∃ l r, cells = l ++ r ∧ q + extent l = p := by
  induction cells generalizing q with
  | nil => exact ⟨[], [], rfl, by simp only [extent_nil] at hp ⊢; omega⟩
  | cons c cells ih =>
      by_cases heq : q = p
      · exact ⟨[], c :: cells, rfl, by simp only [extent_nil]; omega⟩
      · have hstep : ∃ l r, cells = l ++ r ∧ q + c.width + extent l = p := by
          cases c with
          | char c =>
              simp only [extent_cons, width_char] at hp ⊢
              exact ih (by omega) (by omega) hout
          | tag s =>
              simp only [extent_cons, width_tag] at hp ⊢
              have hs := hout _ (List.mem_cons_self ..)
              simp only [Tag.ofSuggestion, Tag.stop] at hs
              exact ih (by omega) (by omega) fun t ht => hout t (List.mem_cons_of_mem _ ht)
        obtain ⟨l, r, rfl, hl⟩ := hstep
        exact ⟨c :: l, r, rfl, by simp only [extent_cons]; omega⟩

end Cell

end TagFormula
