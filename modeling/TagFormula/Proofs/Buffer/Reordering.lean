import Mathlib
import TagFormula.Proofs.Buffer.Lookup
import TagFormula.Proofs.Buffer.Operation
import TagFormula.Proofs.Formula.Substitution

/-!
# The order in which tags are kept

A buffer keeps its tags in the order in which they were put in. Lookups go through them in this
order and take the first hit, and sorting by position is stable, so the order could show. It does
not: names are not empty and spans do not overlap, so that there is at most one hit, and no two
tags start together.

Two laid out buffers with the same tags show the same row of cells (`SameRow`). An operation is
carried out on both of them at once: its judgements come out alike, and a change of the text turns
the one row into another one (`SameRow.alike_reply`). The exception is a deletion that cuts two
tags, which may name either of them when it is refused. This shows in the class of the error when the
id of only one of them can be written (`tag_order_observable`).
-/

namespace TagFormula

namespace Buffer

open Cell

/-- What an operation returns. -/
inductive Reply where
  | nothing
  | tag (t : Tag)
  | active (id : Option Int)

/-- The edit of an operation together with what it returns. -/
def Operation.reply : Operation → Edit Reply
  | insertText offset s => (fun _ => .nothing) <$> Buffer.insertText offset s
  | deleteRange start stop => (fun _ => .nothing) <$> Buffer.deleteRange start stop
  | insertTag s offset => .tag <$> Buffer.insertTag s.val offset
  | removeTag id => .tag <$> Buffer.removeTag id
  | setCursor offset => (fun _ => .nothing) <$> Buffer.setCursor offset
  | setActive id => (fun _ => .nothing) <$> Buffer.setActive id
  | toggleActive id => .active <$> Buffer.toggleActive id
  | reset => (fun _ => .nothing) <$> Buffer.reset

/-- Two buffers that differ at most in the order in which their tags are kept. -/
structure Reordered (b c : Buffer) : Prop where
  text_eq : b.text = c.text
  cursor_eq : b.cursor = c.cursor
  active_eq : b.active = c.active
  mem_tags_iff : ∀ t, t ∈ b.tags ↔ t ∈ c.tags

/-- Two buffers that show one row of cells, with one cursor and one active tag. -/
structure SameRow (b c : Buffer) (cells : List Cell) : Prop where
  left : b.Layout cells
  right : c.Layout cells
  cursor_eq : b.cursor = c.cursor
  active_eq : b.active = c.active

/-- No query tells two buffers apart. -/
structure ViewedAlike (b c : Buffer) : Prop where
  tagAt?_eq : ∀ offset, b.tagAt? offset = c.tagAt? offset
  tagBeforeCursor?_eq : b.tagBeforeCursor? = c.tagBeforeCursor?
  getTag_eq : ∀ id, (b.apply (getTag id)).1 = (c.apply (getTag id)).1
  activeTag_eq : (b.apply activeTag).1 = (c.apply activeTag).1
  render_eq : b.render = c.render
  snapshot_eq : b.snapshot = c.snapshot
  calculate_eq : b.calculate = c.calculate

/-- Reasons for which an operation is refused on two buffers: the same ones, or the names of two
tags that a deletion would cut both, as far as the names can be written. -/
inductive SameReason (b : Buffer) (op : Operation) : BufferError → BufferError → Prop where
  | same (e : BufferError) : SameReason b op e e
  | either {p q : Int} {t u : Tag} (hop : op = .deleteRange p q) (ht : t ∈ b.tags)
      (hu : u ∈ b.tags) (hne : t ≠ u) (hcut : isCut p q t = true) (hcut' : isCut p q u = true) :
      SameReason b op (BufferError.cutsTag .range t.id).raised
        (BufferError.cutsTag .range u.id).raised

/-- A deletion cuts two tags, of which only one has an id that can be written. -/
def CutsUnnamed (b : Buffer) (op : Operation) : Prop :=
  ∃ p q t u, op = .deleteRange p q ∧ t ∈ b.tags ∧ u ∈ b.tags ∧ isCut p q t = true ∧
    isCut p q u = true ∧ Literal.isLong t.id = true ∧ Literal.isLong u.id = false

/-- What an operation answers on two buffers: the same value, or an error for the same reason. -/
inductive SameAnswer {α : Type} (b : Buffer) (op : Operation) :
    Except BufferError α → Except BufferError α → Prop where
  | ok (x : α) : SameAnswer b op (.ok x) (.ok x)
  | error {e e' : BufferError} (h : SameReason b op e e') : SameAnswer b op (.error e) (.error e')

theorem className_raised_cutsTag (cut : Cut) (id : Int) :
    (BufferError.cutsTag cut id).raised.className =
      if Literal.isLong id then "ValueError" else "TagSpanError" := by
  cases hid : Literal.isLong id <;> simp [BufferError.raised, BufferError.integers, hid,
    BufferError.className]

theorem SameReason.className_eq {b : Buffer} {op : Operation} {e e' : BufferError}
    (h : SameReason b op e e') (hop : ¬ CutsUnnamed b op) : e.className = e'.className := by
  cases h with
  | same e => rfl
  | @either p q t u hdelete ht hu _ hcut hcut' =>
      rw [className_raised_cutsTag, className_raised_cutsTag]
      cases hlong : Literal.isLong t.id <;> cases hlong' : Literal.isLong u.id
      · rfl
      · exact absurd ⟨p, q, u, t, hdelete, hu, ht, hcut', hcut, hlong', hlong⟩ hop
      · exact absurd ⟨p, q, t, u, hdelete, ht, hu, hcut, hcut', hlong, hlong'⟩ hop
      · rfl

theorem SameAnswer.className_eq {α : Type} {b : Buffer} {op : Operation}
    {answer answer' : Except BufferError α} (h : SameAnswer b op answer answer')
    (hop : ¬ CutsUnnamed b op) {e e' : BufferError} (he : answer = .error e)
    (he' : answer' = .error e') : e.className = e'.className := by
  cases h with
  | ok x => exact nomatch he
  | error h =>
      obtain rfl := Except.error.inj he
      obtain rfl := Except.error.inj he'
      exact h.className_eq hop

theorem Layout.sameRow {b c : Buffer} {cells cells' : List Cell} (hb : b.Layout cells)
    (hc : c.Layout cells') (h : b.Reordered c) : SameRow b c cells where
  left := hb
  right :=
    { wellFormed := hb.wellFormed
      text_eq := h.text_eq ▸ hb.text_eq
      tags_perm := by
        have hnodup := List.Nodup.of_map _ hb.consistent.nodup_ids
        have hnodup' := List.Nodup.of_map _ hc.consistent.nodup_ids
        have hperm := (List.perm_ext_iff_of_nodup hnodup hnodup').2 h.mem_tags_iff
        exact hperm.symm.trans hb.tags_perm
      cursor_nonneg := h.cursor_eq ▸ hb.cursor_nonneg
      cursor_le := h.cursor_eq ▸ hb.cursor_le
      active_mem := h.active_eq ▸ hb.active_mem }
  cursor_eq := h.cursor_eq
  active_eq := h.active_eq

theorem Layout.tagBeforeCursor?_eq_some_iff {b : Buffer} {cells : List Cell} (h : b.Layout cells)
    {t : Tag} : b.tagBeforeCursor? = some t ↔ t ∈ b.tags ∧ t.stop = b.cursor := by
  constructor
  · exact tagBeforeCursor?_some
  · rintro ⟨ht, hstop⟩
    obtain ⟨u, hu⟩ := exists_tagBeforeCursor? ht hstop
    obtain ⟨hmem, hustop⟩ := tagBeforeCursor?_some hu
    have hlt := h.position_lt_stop ht
    have hlt' := h.position_lt_stop hmem
    rw [hu, h.tag_eq hmem ht (by omega) (by omega)]

namespace SameRow

variable {b c : Buffer} {cells : List Cell}

theorem perm (h : SameRow b c cells) : b.tags.Perm c.tags :=
  h.left.tags_perm.trans h.right.tags_perm.symm

theorem text_eq (h : SameRow b c cells) : b.text = c.text :=
  h.left.text_eq.trans h.right.text_eq.symm

theorem length_eq (h : SameRow b c cells) : b.length = c.length :=
  congrArg List.length h.text_eq

theorem reordered (h : SameRow b c cells) : b.Reordered c where
  text_eq := h.text_eq
  cursor_eq := h.cursor_eq
  active_eq := h.active_eq
  mem_tags_iff _ := h.perm.mem_iff

/-! ## Queries -/

theorem ids_perm (h : SameRow b c cells) : b.ids.Perm c.ids :=
  h.perm.map _

theorem hasId_eq (h : SameRow b c cells) (id : Int) : b.hasId id = c.hasId id := by
  rw [Bool.eq_iff_iff, hasId_iff, hasId_iff, h.ids_perm.mem_iff]

/-- A search for tags that all share an offset has one hit at most, so that the order in which
the tags are kept does not matter to it. -/
theorem find?_tags_eq (h : SameRow b c cells) {found : Tag → Bool} {p : Int}
    (hfound : ∀ t, found t = true → t.position ≤ p ∧ p < t.stop) :
    b.tags.find? found = c.tags.find? found := by
  refine List.find?_eq_find?_of_perm h.perm ?_
  rintro t ⟨ht, hft⟩ u ⟨hu, hfu⟩
  have hpt := hfound t hft
  have hpu := hfound u hfu
  exact h.left.tag_eq ht hu (by omega) (by omega)

theorem tagAt?_eq (h : SameRow b c cells) (p : Int) : b.tagAt? p = c.tagAt? p :=
  h.find?_tags_eq fun t ht => by simpa using ht

theorem tagAround?_eq (h : SameRow b c cells) (p : Int) : b.tagAround? p = c.tagAround? p := by
  refine h.find?_tags_eq (p := p) fun t ht => ?_
  have hin : t.position < p ∧ p < t.stop := by simpa using ht
  omega

theorem find?_eq (h : SameRow b c cells) (id : Int) : b.find? id = c.find? id := by
  refine List.find?_eq_find?_of_perm h.perm ?_
  rintro t ⟨ht, hft⟩ u ⟨hu, hfu⟩
  have hid : t.id = u.id := (beq_iff_eq.1 hft).trans (beq_iff_eq.1 hfu).symm
  exact List.inj_on_of_nodup_map h.left.consistent.nodup_ids ht hu hid

theorem tagBeforeCursor?_eq (h : SameRow b c cells) : b.tagBeforeCursor? = c.tagBeforeCursor? := by
  refine Option.ext fun t => ?_
  rw [h.left.tagBeforeCursor?_eq_some_iff, h.right.tagBeforeCursor?_eq_some_iff, h.perm.mem_iff,
    h.cursor_eq]

theorem sortedTags_eq (h : SameRow b c cells) : b.sortedTags = c.sortedTags :=
  h.left.sortedTags_eq.trans h.right.sortedTags_eq.symm

theorem calculate_eq (h : SameRow b c cells) : b.calculate = c.calculate := by
  have hdescending : Tag.descending b.tags = Tag.descending c.tags := by
    rw [Tag.descending_eq h.left.wellFormed h.left.tags_perm,
      Tag.descending_eq h.right.wellFormed h.right.tags_perm]
  have hsubstitute : Formula.substitute b.text b.tags = Formula.substitute c.text c.tags := by
    rw [Formula.substitute, Formula.substitute, h.text_eq, hdescending]
  rw [calculate, calculate, Formula.calculate, Formula.calculate, Formula.prepare,
    Formula.prepare, hsubstitute, h.text_eq]

/-- The ids named in an error come in ascending order, and an order in which numbers ascend is the
only one. -/
theorem sort_ids_eq (h : SameRow b c cells) :
    b.ids.mergeSort (· ≤ ·) = c.ids.mergeSort (· ≤ ·) := by
  have hperm : (b.ids.mergeSort (· ≤ ·)).Perm (c.ids.mergeSort (· ≤ ·)) :=
    (List.mergeSort_perm _ _).trans (h.ids_perm.trans (List.mergeSort_perm _ _).symm)
  have hsorted (ids : List Int) : (ids.mergeSort (· ≤ ·)).Pairwise (· ≤ ·) :=
    List.pairwise_mergeSort' (· ≤ ·) ids
  exact hperm.eq_of_pairwise (fun _ _ _ _ => Int.le_antisymm) (hsorted b.ids) (hsorted c.ids)

theorem getTag_eq (h : SameRow b c cells) (id : Int) :
    (b.apply (getTag id)).1 = (c.apply (getTag id)).1 := by
  have hfind := h.find?_eq id
  cases hb : b.find? id with
  | some t =>
      rw [apply_of_run_ok (run_getTag hb), apply_of_run_ok (run_getTag (hfind.symm.trans hb))]
  | none =>
      rw [apply_of_run_error (run_getTag_error hb),
        apply_of_run_error (run_getTag_error (hfind.symm.trans hb)), h.sort_ids_eq]

theorem activeTag_eq (h : SameRow b c cells) :
    (b.apply activeTag).1 = (c.apply activeTag).1 := by
  cases hactive : b.active with
  | none =>
      have hactive' := h.active_eq.symm.trans hactive
      rw [apply_of_run_ok (run_activeTag_none hactive),
        apply_of_run_ok (run_activeTag_none hactive')]
  | some id =>
      have hactive' := h.active_eq.symm.trans hactive
      obtain ⟨l, s, r, rfl, rfl⟩ :=
        h.left.exists_tag (h.left.mem_ids_iff.2 (h.left.active_mem id hactive))
      rw [apply_of_run_ok (run_activeTag_some hactive h.left.find?_eq),
        apply_of_run_ok (run_activeTag_some hactive' h.right.find?_eq)]

theorem viewedAlike (h : SameRow b c cells) : ViewedAlike b c where
  tagAt?_eq := h.tagAt?_eq
  tagBeforeCursor?_eq := h.tagBeforeCursor?_eq
  getTag_eq := h.getTag_eq
  activeTag_eq := h.activeTag_eq
  render_eq := by rw [render, render, h.text_eq, h.sortedTags_eq]
  snapshot_eq := by
    rw [snapshot, snapshot, h.text_eq, h.sortedTags_eq, h.cursor_eq, h.active_eq]
  calculate_eq := h.calculate_eq

/-! ## Changes -/

theorem withCursor (h : SameRow b c cells) {p : Int} (h₀ : 0 ≤ p) (h₁ : p ≤ b.length) :
    SameRow { b with cursor := p } { c with cursor := p } cells := by
  rw [h.left.length_eq] at h₁
  exact ⟨h.left.withCursor h₀ h₁, h.right.withCursor h₀ h₁, rfl, h.active_eq⟩

theorem withActive (h : SameRow b c cells) {active : Option Int}
    (hid : ∀ id, active = some id → id ∈ Cell.ids cells) :
    SameRow { b with active := active } { c with active := active } cells :=
  ⟨h.left.withActive hid, h.right.withActive hid, h.cursor_eq, rfl⟩

variable {l m r : List Cell} {s : Suggestion}

theorem splice (h : SameRow b c (l ++ r)) (t : Text) :
    SameRow (b.splice (extent l) t) (c.splice (extent l) t) (l ++ (t.map .char ++ r)) :=
  ⟨h.left.splice t, h.right.splice t, h.cursor_eq, h.active_eq⟩

theorem place (h : SameRow b c (l ++ r)) (hs : s.Valid) (hid : s.id ∉ Cell.ids (l ++ r)) :
    SameRow (Buffer.place (.ofSuggestion s (extent l)) b)
      (Buffer.place (.ofSuggestion s (extent l)) c) (l ++ tag s :: r) :=
  ⟨h.left.place hs hid, h.right.place hs hid, rfl, h.active_eq⟩

theorem cut (h : SameRow b c (l ++ (m ++ r))) :
    SameRow (Buffer.cut (extent l) (extent l + extent m) b)
      (Buffer.cut (extent l) (extent l + extent m) c) (l ++ r) where
  left := h.left.cut
  right := h.right.cut
  cursor_eq := by rw [cursor_cut h.left, cursor_cut h.right, h.cursor_eq]
  active_eq := by rw [active_cut h.left, active_cut h.right, h.active_eq]

theorem takeOut (h : SameRow b c (l ++ tag s :: r)) :
    SameRow (Buffer.takeOut (.ofSuggestion s (extent l)) b)
      (Buffer.takeOut (.ofSuggestion s (extent l)) c) (l ++ r) where
  left := h.left.takeOut
  right := h.right.takeOut
  cursor_eq := rfl
  active_eq := by rw [Buffer.takeOut, Buffer.takeOut, h.active_eq]

end SameRow

/-! ## Operations -/

/-- An edit ends alike on two buffers: it succeeds with the same value, or is refused for the same
reason, and the buffers afterwards show one row again. -/
inductive Alike {α : Type} (b₀ : Buffer) (op : Operation) :
    EStateM.Result BufferError Buffer α → EStateM.Result BufferError Buffer α → Prop where
  | ok (x : α) {b c : Buffer} {cells : List Cell} (h : SameRow b c cells) :
      Alike b₀ op (.ok x b) (.ok x c)
  | error {e e' : BufferError} {b c : Buffer} {cells : List Cell} (he : SameReason b₀ op e e')
      (h : SameRow b c cells) : Alike b₀ op (.error e b) (.error e' c)

variable {α β : Type} {b₀ b c : Buffer} {op : Operation} {cells : List Cell}

theorem Alike.map {edit : Edit α} (h : Alike b₀ op (edit.run b) (edit.run c)) (f : α → β) :
    Alike b₀ op ((f <$> edit).run b) ((f <$> edit).run c) := by
  rw [map_eq_pure_bind, EStateM.run_bind, EStateM.run_bind]
  generalize edit.run b = outcome, edit.run c = outcome' at h
  cases h with
  | ok x h => exact .ok (f x) h
  | error he h => exact .error he h

theorem Alike.apply {edit : Edit α} (h : Alike b₀ op (edit.run b) (edit.run c)) :
    SameAnswer b₀ op (b.apply edit).1 (c.apply edit).1 ∧
      ∃ cells, SameRow (b.apply edit).2 (c.apply edit).2 cells := by
  generalize hb : edit.run b = outcome, hc : edit.run c = outcome' at h
  cases h with
  | ok x h =>
      rw [apply_of_run_ok hb, apply_of_run_ok hc]
      exact ⟨.ok x, _, h⟩
  | error he h =>
      rw [apply_of_run_error hb, apply_of_run_error hc]
      exact ⟨.error he, _, h⟩

namespace SameRow

theorem alike_requireOffset (h : SameRow b c cells) {p : Int} {next next' : Unit → Edit α}
    (hnext : 0 ≤ p → p ≤ b.length → Alike b₀ op ((next ()).run b) ((next' ()).run c)) :
    Alike b₀ op ((requireOffset p >>= next).run b) ((requireOffset p >>= next').run c) := by
  by_cases hp : 0 ≤ p ∧ p ≤ b.length
  · have hp' : p ≤ c.length := h.length_eq ▸ hp.2
    rw [run_bind_of_ok (run_requireOffset hp.1 hp.2), run_bind_of_ok (run_requireOffset hp.1 hp')]
    exact hnext hp.1 hp.2
  · have hout : p < 0 ∨ (b.length : Int) < p := by omega
    have hout' : p < 0 ∨ (c.length : Int) < p := h.length_eq ▸ hout
    simp only [requireOffset, EStateM.run_bind, EStateM.run_get, if_pos hout', run_refuse,
      h.length_eq]
    exact .error (.same _) h

/-- Where both judgements in front of an insertion let it pass, the row parts. -/
theorem alike_insertion (h : SameRow b c cells) {p : Int} (what : Cut) {next : Edit α}
    (hnext : ∀ l r, cells = l ++ r → (extent l : Int) = p →
      Alike b₀ op (next.run b) (next.run c)) :
    Alike b₀ op ((do requireOffset p; requireBoundary p what; next).run b)
      ((do requireOffset p; requireBoundary p what; next).run c) := by
  refine h.alike_requireOffset fun h₀ h₁ => ?_
  cases haround : b.tagAround? p with
  | none =>
      have houtside : ∀ t ∈ b.tags, ¬ (t.position < p ∧ p < t.stop) := by
        simpa [tagAround?] using haround
      have hp : b.IsBoundary p := ⟨h₀, h₁, houtside⟩
      obtain ⟨l, r, hlr, hl⟩ := h.left.isBoundary_iff.1 hp
      have hp' : c.IsBoundary p := h.right.isBoundary_iff.2 ⟨l, r, hlr, hl⟩
      rw [run_bind_of_ok (run_requireBoundary hp what),
        run_bind_of_ok (run_requireBoundary hp' what)]
      exact hnext l r hlr hl
  | some t =>
      have haround' := (h.tagAround?_eq p).symm.trans haround
      simp only [requireBoundary, EStateM.run_bind, EStateM.run_get, haround, haround']
      exact .error (.same _) h

theorem alike_getTag_bind (h : SameRow b c cells) {id : Int} {next : Tag → Edit α}
    (hnext : ∀ l s r, cells = l ++ tag s :: r → s.id = id →
      Alike b₀ op ((next (.ofSuggestion s (extent l))).run b)
        ((next (.ofSuggestion s (extent l))).run c)) :
    Alike b₀ op ((getTag id >>= next).run b) ((getTag id >>= next).run c) := by
  by_cases hid : id ∈ b.ids
  · obtain ⟨l, s, r, rfl, rfl⟩ := h.left.exists_tag hid
    rw [run_bind_of_ok (run_getTag h.left.find?_eq), run_bind_of_ok (run_getTag h.right.find?_eq)]
    exact hnext l s r rfl rfl
  · have hnone := find?_eq_none_iff.2 hid
    have hnone' := (h.find?_eq id).symm.trans hnone
    rw [EStateM.run_bind, EStateM.run_bind, run_getTag_error hnone, run_getTag_error hnone',
      h.sort_ids_eq]
    exact .error (.same _) h

theorem alike_transaction {change : Buffer → Buffer} (h : SameRow (change b) (change c) cells) :
    Alike b₀ op ((transaction change).run b) ((transaction change).run c) := by
  rw [run_transaction h.left, run_transaction h.right]
  exact .ok () h

theorem alike_insertText (h : SameRow b c cells) (p : Int) (s : Text) :
    Alike b₀ op ((insertText p s).run b) ((insertText p s).run c) := by
  refine h.alike_insertion .text fun l r hlr hl => ?_
  subst hlr hl
  split
  · exact .ok () h
  · exact alike_transaction (h.splice s)

theorem alike_insertTag (h : SameRow b c cells) (s : ValidSuggestion) (p : Int) :
    Alike b₀ op ((insertTag s.val p).run b) ((insertTag s.val p).run c) := by
  rw [insertTag, run_bind_of_ok (EStateM.run_get b), run_bind_of_ok (EStateM.run_get c),
    h.hasId_eq]
  split
  · exact .error (.same _) h
  · next hid =>
    refine h.alike_insertion .tag fun l r hlr hl => ?_
    subst hlr hl
    have hid' : s.val.id ∉ Cell.ids (l ++ r) := by
      rwa [hasId_iff, h.right.mem_ids_iff] at hid
    have hfaults := Tag.faults_ofSuggestion s.property (Int.natCast_nonneg (extent l))
    rw [run_bind_of_ok (run_requireValid hfaults b), run_bind_of_ok (run_requireValid hfaults c),
      ← map_eq_pure_bind]
    exact (alike_transaction (h.place s.property hid')).map _

theorem alike_removeTag (h : SameRow b c cells) (id : Int) :
    Alike b₀ op ((removeTag id).run b) ((removeTag id).run c) := by
  refine h.alike_getTag_bind fun l s r hlr _ => ?_
  subst hlr
  rw [← map_eq_pure_bind]
  exact (alike_transaction h.takeOut).map _

/-- With no tag cut the range takes out the same cells of both buffers, and with a single one both
name it. -/
theorem alike_deleteRange (h : SameRow b c cells) (p q : Int) :
    Alike b (.deleteRange p q) ((deleteRange p q).run b) ((deleteRange p q).run c) := by
  rw [deleteRange, run_bind_of_ok (EStateM.run_get b), run_bind_of_ok (EStateM.run_get c),
    h.length_eq]
  dsimp only
  split
  · exact .error (.same _) h
  · next hle =>
    refine h.alike_requireOffset fun h₀ h₁ => h.alike_requireOffset fun h₂ h₃ => ?_
    split
    · exact .ok () h
    · next hne =>
      have hlt : p < q := by omega
      cases hcut : b.tags.find? (isCut p q) with
      | none =>
          have hnone := List.find?_eq_none.1 hcut
          have hnone' : c.tags.find? (isCut p q) = none :=
            List.find?_eq_none.2 fun t ht => hnone t (h.perm.mem_iff.2 ht)
          have hp : b.IsBoundary p :=
            ⟨h₀, h₁, fun t ht hin => hnone t ht ((isCut_iff hlt t).2 (.inl hin))⟩
          have hq : b.IsBoundary q :=
            ⟨h₂, h₃, fun t ht hin => hnone t ht ((isCut_iff hlt t).2 (.inr hin))⟩
          obtain ⟨l, m, r, rfl, rfl, rfl⟩ := h.left.exists_range hp hq (Int.le_of_lt hlt)
          rw [hnone']
          exact alike_transaction h.cut
      | some t =>
          have ht := List.mem_of_find?_eq_some hcut
          have hcut := List.find?_some hcut
          obtain ⟨u, hfind⟩ : ∃ u, c.tags.find? (isCut p q) = some u := by
            rw [← Option.isSome_iff_exists, List.find?_isSome]
            exact ⟨t, h.perm.mem_iff.1 ht, hcut⟩
          have hu := h.perm.mem_iff.2 (List.mem_of_find?_eq_some hfind)
          have hcut' := List.find?_some hfind
          rw [hfind]
          by_cases heq : t = u
          · rw [heq]
            exact .error (.same _) h
          · exact .error (.either rfl ht hu heq hcut hcut') h

theorem alike_setCursor (h : SameRow b c cells) (p : Int) :
    Alike b₀ op ((setCursor p).run b) ((setCursor p).run c) :=
  h.alike_requireOffset fun h₀ h₁ => .ok () (h.withCursor h₀ h₁)

theorem alike_setActive (h : SameRow b c cells) (id : Option Int) :
    Alike b₀ op ((setActive id).run b) ((setActive id).run c) := by
  cases id with
  | none => exact .ok () (h.withActive (by simp))
  | some id =>
      refine h.alike_getTag_bind fun l s r hlr hid => .ok () (h.withActive ?_)
      intro i hi
      rw [hlr, ← Option.some.inj hi, ← hid]
      simp

theorem alike_toggleActive (h : SameRow b c cells) (id : Int) :
    Alike b₀ op ((toggleActive id).run b) ((toggleActive id).run c) := by
  refine h.alike_getTag_bind fun l s r hlr hid => ?_
  have hactive : ∀ i, (if b.active = some id then none else some id) = some i →
      i ∈ Cell.ids cells := by
    intro i hi
    split at hi
    · exact absurd hi (by simp)
    · rw [hlr, ← Option.some.inj hi, ← hid]
      simp
  have hrow := h.withActive hactive
  have hb : (do
      modify fun b => { b with active := if b.active = some id then none else some id }
      return (← get).active : Edit (Option Int)).run c =
      .ok (if b.active = some id then none else some id)
        { c with active := if b.active = some id then none else some id } := by
    rw [h.active_eq]
    rfl
  rw [hb]
  exact .ok _ hrow

theorem alike_reset : Alike b₀ op (reset.run b) (reset.run c) :=
  .ok () ⟨layout_empty, layout_empty, rfl, rfl⟩

/-- Every operation ends alike on two buffers that show one row. -/
theorem alike_reply (h : SameRow b c cells) (op : Operation) :
    Alike b op (op.reply.run b) (op.reply.run c) := by
  cases op with
  | insertText p s => exact (h.alike_insertText p s).map _
  | deleteRange p q => exact (h.alike_deleteRange p q).map _
  | insertTag s p => exact (h.alike_insertTag s p).map _
  | removeTag id => exact (h.alike_removeTag id).map _
  | setCursor p => exact (h.alike_setCursor p).map _
  | setActive id => exact (h.alike_setActive id).map _
  | toggleActive id => exact (h.alike_toggleActive id).map _
  | reset => exact alike_reset.map _

end SameRow

/-! ## Runs -/

theorem snd_apply_map (edit : Edit α) (f : α → β) (b : Buffer) :
    (b.apply (f <$> edit)).2 = (b.apply edit).2 := by
  rw [map_eq_pure_bind]
  cases hrun : edit.run b with
  | ok x b' =>
      have hmap : (edit >>= fun x => pure (f x)).run b = .ok (f x) b' := run_bind_of_ok hrun
      rw [apply_of_run_ok hrun, apply_of_run_ok hmap]
  | error e b' =>
      have hmap : (edit >>= fun x => pure (f x)).run b = .error e b' := by
        rw [EStateM.run_bind, hrun]
      rw [apply_of_run_error hrun, apply_of_run_error hmap]

theorem perform_eq_reply (b : Buffer) (op : Operation) : b.perform op = (b.apply op.reply).2 := by
  cases op with
  | insertText p s => exact (snd_apply_map _ _ b).symm
  | deleteRange p q => exact (snd_apply_map _ _ b).symm
  | insertTag s p => exact (snd_apply_map _ (fun _ => ()) b).trans (snd_apply_map _ _ b).symm
  | removeTag id => exact (snd_apply_map _ (fun _ => ()) b).trans (snd_apply_map _ _ b).symm
  | setCursor p => exact (snd_apply_map _ _ b).symm
  | setActive id => exact (snd_apply_map _ _ b).symm
  | toggleActive id => exact (snd_apply_map _ (fun _ => ()) b).trans (snd_apply_map _ _ b).symm
  | reset => exact (snd_apply_map _ _ b).symm

theorem SameRow.perform (h : SameRow b c cells) (op : Operation) :
    ∃ cells', SameRow (b.perform op) (c.perform op) cells' := by
  rw [perform_eq_reply, perform_eq_reply]
  exact (h.alike_reply op).apply.2

theorem SameRow.foldl_perform (h : SameRow b c cells) (ops : List Operation) :
    ∃ cells', SameRow (ops.foldl Buffer.perform b) (ops.foldl Buffer.perform c) cells' := by
  induction ops generalizing b c cells with
  | nil => exact ⟨cells, h⟩
  | cons op ops ih =>
      obtain ⟨cells', h'⟩ := h.perform op
      exact ih h'

/-- Two runs that end with the same text, cursor, active tag and tags, kept in whatever orders: no
query tells the buffers apart, every operation answers the same on both and leaves buffers that
again differ at most in the order of their tags, and so does every run that goes on from them. Only
a deletion that cuts two tags may name one of them here and the other there. The class of the error is
the same then too, unless the id of one of the two is too long to be written and that of the other is
not. -/
theorem tag_order_unobservable (ops ops' : List Operation)
    (h : (after ops).Reordered (after ops')) :
    let b := after ops
    let c := after ops'
    ViewedAlike b c ∧
      (∀ op : Operation, SameAnswer b op (b.apply op.reply).1 (c.apply op.reply).1 ∧
        (b.perform op).Reordered (c.perform op)) ∧
      (∀ (op : Operation) e e', ¬ CutsUnnamed b op → (b.apply op.reply).1 = .error e →
        (c.apply op.reply).1 = .error e' → e.className = e'.className) ∧
      ∀ next, (after (ops ++ next)).Reordered (after (ops' ++ next)) := by
  intro b c
  obtain ⟨cells, hb⟩ := layout_after ops
  obtain ⟨cells', hc⟩ := layout_after ops'
  have hrow := hb.sameRow hc h
  refine ⟨hrow.viewedAlike, fun op => ⟨(hrow.alike_reply op).apply.1, ?_⟩,
    fun op e e' hop he he' => (hrow.alike_reply op).apply.1.className_eq hop he he',
    fun next => ?_⟩
  · obtain ⟨cells'', hrow'⟩ := hrow.perform op
    exact hrow'.reordered
  · obtain ⟨cells'', hrow'⟩ := hrow.foldl_perform next
    rw [after, after, List.foldl_append, List.foldl_append]
    exact hrow'.reordered

section TwoTags

variable {i j : Int}

/-- Two tags that touch, put in from left to right. -/
def leftToRight (i j : Int) : List Operation :=
  [.insertTag (zeroNamed i "AB".toList (by decide)) 0,
    .insertTag (zeroNamed j "CD".toList (by decide)) 2, .setCursor 0]

/-- The same tags, put in from right to left. -/
def rightToLeft (i j : Int) : List Operation :=
  [.insertTag (zeroNamed j "CD".toList (by decide)) 0,
    .insertTag (zeroNamed i "AB".toList (by decide)) 0, .setCursor 0]

/-- Both tags, and the cursor in front of them. -/
def touching (tags : List Tag) : Buffer :=
  ⟨"ABCD".toList, tags, 0, none⟩

theorem after_leftToRight (hij : i ≠ j) :
    after (leftToRight i j) =
      touching [⟨⟨i, "AB".toList, 0⟩, 0⟩, ⟨⟨j, "CD".toList, 0⟩, 2⟩] := by
  let first := zeroNamed i "AB".toList (by decide)
  let second := zeroNamed j "CD".toList (by decide)
  have hempty : empty.Layout ([] ++ []) := layout_empty
  have hfirst := hempty.perform_insertTag first (by simp)
  have hsecond : second.val.id ∉ Cell.ids ([tag first.val] ++ []) := by
    simpa [first, second, zeroNamed] using hij.symm
  have hafter : after (leftToRight i j) =
      ((empty.perform (.insertTag first (extent []))).perform
        (.insertTag second (extent [tag first.val]))).perform (.setCursor 0) := rfl
  rw [hafter, hfirst.perform_insertTag_eq (l := [tag first.val]) (r := []) second hsecond,
    hempty.perform_insertTag_eq first (by simp)]
  rfl

theorem after_rightToLeft (hij : i ≠ j) :
    after (rightToLeft i j) =
      touching [⟨⟨j, "CD".toList, 0⟩, 2⟩, ⟨⟨i, "AB".toList, 0⟩, 0⟩] := by
  let first := zeroNamed i "AB".toList (by decide)
  let second := zeroNamed j "CD".toList (by decide)
  have hempty : empty.Layout ([] ++ []) := layout_empty
  have hsecond := hempty.perform_insertTag second (by simp)
  have hfirst : first.val.id ∉ Cell.ids ([] ++ [tag second.val]) := by
    simpa [first, second, zeroNamed] using hij
  have hafter : after (rightToLeft i j) =
      ((empty.perform (.insertTag second (extent []))).perform
        (.insertTag first (extent []))).perform (.setCursor 0) := rfl
  rw [hafter, hsecond.perform_insertTag_eq (l := []) (r := [tag second.val]) first hfirst,
    hempty.perform_insertTag_eq second (by simp)]
  rfl

theorem reordered_touching (hij : i ≠ j) :
    (after (leftToRight i j)).Reordered (after (rightToLeft i j)) := by
  rw [after_leftToRight hij, after_rightToLeft hij]
  refine ⟨rfl, rfl, rfl, fun t => ?_⟩
  simp only [touching, List.mem_cons, List.not_mem_nil, or_false]
  exact or_comm

/-- A range that cuts both tags names the one that was put in first. -/
theorem apply_deleteRange_touching (hij : i ≠ j) :
    (after (leftToRight i j)).apply (deleteRange 1 3) =
        (.error (BufferError.cutsTag .range i).raised, after (leftToRight i j)) ∧
      (after (rightToLeft i j)).apply (deleteRange 1 3) =
        (.error (BufferError.cutsTag .range j).raised, after (rightToLeft i j)) := by
  let first : Tag := ⟨⟨i, "AB".toList, 0⟩, 0⟩
  let second : Tag := ⟨⟨j, "CD".toList, 0⟩, 2⟩
  have hlength (tags : List Tag) : (3 : Int) ≤ (touching tags).length := by
    rw [show (touching tags).length = 4 from rfl]
    decide
  rw [after_leftToRight hij, after_rightToLeft hij]
  exact ⟨apply_of_run_error (run_deleteRange_of_find? (b := touching [first, second])
      (t := first) rfl (by decide) (by decide) (hlength _)),
    apply_of_run_error (run_deleteRange_of_find? (b := touching [second, first])
      (t := second) rfl (by decide) (by decide) (hlength _))⟩

theorem tag_order_unobservable_two_tags :
    (after (leftToRight 1 2)).Reordered (after (rightToLeft 1 2)) ∧
      (after (leftToRight 1 2)).ids = [1, 2] ∧ (after (rightToLeft 1 2)).ids = [2, 1] ∧
      ViewedAlike (after (leftToRight 1 2)) (after (rightToLeft 1 2)) ∧
      ((after (leftToRight 1 2)).apply (deleteRange 1 3)).1 = .error (.cutsTag .range 1) ∧
      ((after (rightToLeft 1 2)).apply (deleteRange 1 3)).1 = .error (.cutsTag .range 2) := by
  have hij : (1 : Int) ≠ 2 := by decide
  have h := reordered_touching hij
  obtain ⟨hleft, hright⟩ := apply_deleteRange_touching hij
  have hraised (id : Int) (hid : id.natAbs < 10) :
      (BufferError.cutsTag .range id).raised = .cutsTag .range id :=
    BufferError.raised_of_short (List.forall_mem_singleton.2 (Literal.isLong_of_natAbs_lt hid))
  refine ⟨h, ?_, ?_, (tag_order_unobservable _ _ h).1, ?_, ?_⟩
  · rw [after_leftToRight hij]
    rfl
  · rw [after_rightToLeft hij]
    rfl
  · rw [hleft, hraised 1 (by decide)]
  · rw [hright, hraised 2 (by decide)]

/-- With the id of one of the tags too long to be written the two orders give errors of different
classes. -/
theorem tag_order_observable :
    let long : Int := (Nat.pow 10 Literal.maxIntegerDigits : Nat)
    (after (leftToRight 1 long)).Reordered (after (rightToLeft 1 long)) ∧
      ((after (leftToRight 1 long)).apply (deleteRange 1 3)).1 = .error (.cutsTag .range 1) ∧
      ((after (rightToLeft 1 long)).apply (deleteRange 1 3)).1 = .error .integerTooLong := by
  intro long
  have hten : 10 ≤ Nat.pow 10 Literal.maxIntegerDigits := Literal.ten_le_pow (by decide)
  have hij : 1 ≠ long := by omega
  have hlong : Literal.isLong long = true := by
    rw [Literal.isLong, Int.natAbs_natCast, decide_eq_true_iff]
  obtain ⟨hleft, hright⟩ := apply_deleteRange_touching hij
  refine ⟨reordered_touching hij, ?_, ?_⟩
  · rw [hleft, BufferError.raised_of_short]
    exact List.forall_mem_singleton.2 (Literal.isLong_of_natAbs_lt (by decide))
  · rw [hright, BufferError.raised, if_neg]
    simp [BufferError.integers, hlong]

end TwoTags

end Buffer

end TagFormula
