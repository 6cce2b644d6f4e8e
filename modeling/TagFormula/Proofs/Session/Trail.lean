import Mathlib.Data.Finset.Dedup
import TagFormula.Proofs.Event.Trail
import TagFormula.Proofs.Session.Preservation

/-!
# The journal tells which tags there are

Whatever is done in a session, its journal is a faithful trail of the ids in its buffer
(`Audited`). An id that is put in has been taken as the next free one, so it lies above
all that were put in before, whatever has become of their tags.

Most actions do not touch the tags, and the events that they add are not about them
(`Unmoved`). The others end in one change with its own event. A character is only
deleted where no tag covers it, so no tag goes away with it unnoticed
(`ids_cut_of_tagAt?`). Nothing is assumed of the suggestions, and an edit may be refused
in the middle of an action: on a laid out buffer it is all or nothing, and its event has
not been added then.
-/

namespace TagFormula

/-! ## Tags of a changed buffer -/

namespace Buffer

theorem ids_splice (p : Int) (s : Text) (b : Buffer) : (b.splice p s).ids = b.ids := by
  simp only [ids, splice, List.map_map, Function.comp_def, id_shiftFrom]

theorem ids_place (t : Tag) (b : Buffer) : (b.place t).ids = b.ids ++ [t.id] := by
  have h := ids_splice t.position t.name b
  rw [ids] at h
  rw [place, ids, List.map_append, h]
  rfl

theorem ids_takeOut (t : Tag) (b : Buffer) :
    (b.takeOut t).ids = b.ids.filter fun id => id ≠ t.id := by
  simp only [ids, takeOut, List.map_map, Function.comp_def, id_shiftFrom, List.filter_map]

/-- Where no tag covers a character, none goes away with it. -/
theorem ids_cut_of_tagAt? {b : Buffer} {p : Int} (h : b.tagAt? p = none) :
    (b.cut p (p + 1)).ids = b.ids := by
  have hnone : ∀ t ∈ b.tags, (!isInside p (p + 1) t) = true := by
    intro t ht
    have hout := List.find?_eq_none.1 h t ht
    simp only [Bool.and_eq_true, decide_eq_true_eq] at hout
    simp only [isInside, Bool.not_eq_true', Bool.and_eq_false_iff, Bool.not_eq_false',
      Bool.or_eq_true, decide_eq_true_eq, decide_eq_false_iff_not]
    omega
  simp only [ids, cut, List.filter_eq_self.2 hnone, List.map_map, Function.comp_def, id_shiftFrom]

/-- A suggestion that is put in becomes the last tag, under its own id. -/
theorem insertTag_outcome {b : Buffer} (hlaid : b.LaidOut) (s : Suggestion) (p : Int) :
    (∃ e, (insertTag s p).run b = .error e b) ∨
      ∃ t b', (insertTag s p).run b = .ok t b' ∧ b'.LaidOut ∧ t.id = s.id ∧
        b'.ids = b.ids ++ [s.id] := by
  obtain ⟨cells, hlayout⟩ := hlaid
  by_cases h : s.Valid ∧ s.id ∉ b.ids ∧ b.IsBoundary p
  · obtain ⟨hs, hid, hp⟩ := h
    obtain ⟨l, r, rfl, rfl⟩ := hlayout.isBoundary_iff.1 hp
    have hplace := hlayout.place hs fun hmem => hid (hlayout.mem_ids_iff.2 hmem)
    have hrun := run_insertTag hs hid hp (run_transaction hplace)
    exact .inr ⟨_, _, hrun, ⟨_, hplace⟩, rfl, ids_place _ b⟩
  · obtain ⟨e, hrun, -⟩ := insertTag_refused h
    exact .inl ⟨e, hrun⟩

/-- The tag that is removed is one of the buffer. -/
theorem removeTag_outcome {b : Buffer} (hlaid : b.LaidOut) (id : Int) :
    (∃ e, (removeTag id).run b = .error e b) ∨
      ∃ t b', (removeTag id).run b = .ok t b' ∧ b'.LaidOut ∧ t.id = id ∧ id ∈ b.ids ∧
        b'.ids = b.ids.filter fun i => i ≠ id := by
  obtain ⟨cells, hlayout⟩ := hlaid
  by_cases hid : id ∈ b.ids
  · obtain ⟨l, s, r, rfl, rfl⟩ := hlayout.exists_tag hid
    have hrun := run_removeTag hlayout.find?_eq (run_transaction hlayout.takeOut)
    exact .inr ⟨_, _, hrun, ⟨_, hlayout.takeOut⟩, rfl, hid, ids_takeOut _ b⟩
  · obtain ⟨e, hrun, -⟩ := removeTag_refused hid
    exact .inl ⟨e, hrun⟩

end Buffer

namespace Session

/-! ## Sessions with a faithful journal -/

/-- The journal is a faithful trail of the tags in a laid out buffer, and the ids to come are above
all that have been put in. -/
structure Audited (s : Session) : Prop where
  laidOut : s.buffer.LaidOut
  faithful : Trail.Faithful s.journal s.buffer.ids.toFinset
  lt_nextId : ∀ id ∈ Trail.inserted s.journal, id < s.nextId

/-- The tags are the same, and what the journal has more is not about tags. -/
structure Unmoved (s s' : Session) : Prop where
  laidOut : s.buffer.LaidOut → s'.buffer.LaidOut
  ids_eq : s'.buffer.ids = s.buffer.ids
  nextId_eq : s'.nextId = s.nextId
  journal_eq : ∃ more, s'.journal = s.journal ++ more ∧ Trail.Quiet more

namespace Unmoved

variable {s s' : Session}

theorem of_eq (hlaid : s.buffer.LaidOut → s'.buffer.LaidOut)
    (hids : s'.buffer.ids = s.buffer.ids) (hnext : s'.nextId = s.nextId)
    (hjournal : s'.journal = s.journal) : s.Unmoved s' :=
  ⟨hlaid, hids, hnext, [], by rw [hjournal, List.append_nil], fun _ he => nomatch he⟩

theorem audited (h : s.Unmoved s') (hs : s.Audited) : s'.Audited := by
  obtain ⟨more, hjournal, hquiet⟩ := h.journal_eq
  obtain ⟨hfaithful, hinserted⟩ := hs.faithful.quiet hquiet
  refine ⟨h.laidOut hs.laidOut, ?_, ?_⟩
  · rw [hjournal, h.ids_eq]
    exact hfaithful
  · rw [hjournal, hinserted, h.nextId_eq]
    exact hs.lt_nextId

/-- An event that is not about tags, after another result. -/
theorem record (s : Session) (result : Evaluation) (kind : EventKind) (level : EventLevel)
    (message : Text) (errorCode : Option String) (extra : List (JsonString × Json))
    (hkind : kind ≠ .tagInserted ∧ kind ≠ .tagRemoved ∧ kind ≠ .sessionReset) :
    s.Unmoved ({ s with result }.record kind level message errorCode extra) := by
  refine ⟨fun h => h, rfl, rfl, [event { s with result } kind level message errorCode extra], rfl,
    fun e he => ?_⟩
  rwa [List.mem_singleton.1 he]

theorem refreshed (s : Session) : s.Unmoved s.refreshed := by
  unfold Session.refreshed
  dsimp only
  split
  · exact of_eq (fun h => h) rfl rfl rfl
  · exact record s _ .formulaEvaluated _ _ _ _ (by decide)
  · exact record s _ .formulaError _ _ _ _ (by decide)

end Unmoved

namespace Audited

variable {s : Session}

theorem refreshed (h : s.Audited) : s.refreshed.Audited :=
  (Unmoved.refreshed s).audited h

/-- An event that tells of a tag put in with an id that is not below the ids to come. -/
theorem inserted (h : s.Audited) {s' : Session} {id : Int} {e : Event} (hid : s.nextId ≤ id)
    (hlaid : s'.buffer.LaidOut) (hids : s'.buffer.ids = s.buffer.ids ++ [id]) (hnext : s'.nextId = id + 1)
    (hjournal : s'.journal = s.journal ++ [e]) (hkind : e.kind = .tagInserted)
    (htag : e.tagId? = some id) : s'.Audited := by
  have hnew : id ∉ Trail.inserted s.journal := fun hmem =>
    Int.lt_irrefl _ (Int.lt_of_le_of_lt hid (h.lt_nextId id hmem))
  have hfaithful := h.faithful.concat (e := e) (fun hremoved => by simp [hkind] at hremoved)
    fun _ => ⟨id, htag, hnew⟩
  have hstep : Trail.step s.buffer.ids.toFinset e = s'.buffer.ids.toFinset := by
    rw [Trail.step, hkind, htag, hids]
    ext i
    simp only [Finset.mem_insert, List.mem_toFinset, List.mem_append, List.mem_singleton]
    exact or_comm
  refine ⟨hlaid, ?_, fun i hi => ?_⟩
  · rw [hjournal, ← hstep]
    exact hfaithful
  · rw [hjournal, Trail.inserted_concat, if_pos hkind, htag] at hi
    rw [hnext]
    rcases List.mem_append.1 hi with hi | hi
    · exact Int.lt_trans (h.lt_nextId i hi) (Int.lt_add_one_of_le hid)
    · rw [List.mem_singleton.1 hi]
      exact Int.lt_succ id

/-- An event that puts nothing in. -/
theorem concat (h : s.Audited) {s' : Session} {e : Event} (hlaid : s'.buffer.LaidOut)
    (hkind : e.kind ≠ .tagInserted)
    (hremoved : e.kind = .tagRemoved → ∃ id ∈ s.buffer.ids.toFinset, e.tagId? = some id)
    (hstep : Trail.step s.buffer.ids.toFinset e = s'.buffer.ids.toFinset)
    (hnext : s'.nextId = s.nextId) (hjournal : s'.journal = s.journal ++ [e]) : s'.Audited := by
  refine ⟨hlaid, ?_, ?_⟩
  · rw [hjournal, ← hstep]
    exact h.faithful.concat hremoved fun hinserted => absurd hinserted hkind
  · rw [hjournal, Trail.inserted_concat, if_neg hkind, List.append_nil, hnext]
    exact h.lt_nextId

end Audited

/-! ## Actions that keep it faithful -/

/-- After the action, whether it returns or is refused, the journal is faithful if it was before. -/
abbrev Keeps {α : Type} (action : Action α) : Prop :=
  Preserves Audited action

namespace Keeps

variable {α : Type}

theorem modify {f : Session → Session} (h : ∀ s : Session, s.Unmoved (f s)) :
    Keeps (modifyGet fun s => ((), f s) : Action Unit) :=
  Preserves.modify fun s hs => (h s).audited hs

/-- An edit that leaves the ids alone, on one session. -/
theorem edit_at {change : Buffer.Edit α} {R : Buffer → Buffer → Prop} {s : Session}
    (hs : s.Audited) (h : Buffer.Settles change R)
    (hids : ∀ b', R s.buffer b' → b'.ids = s.buffer.ids) :
    (s.apply (Session.edit change)).2.Audited := by
  obtain ⟨e, hrun⟩ | ⟨x, b', hrun, hlaid, hR⟩ := h s.buffer hs.laidOut
  · rw [apply_of_run_error (run_edit_error hrun)]
    exact hs
  · rw [apply_of_run_ok (run_edit hrun)]
    have hunmoved : Unmoved s { s with buffer := b' } :=
      .of_eq (fun _ => hlaid) (hids b' hR) rfl rfl
    exact hunmoved.audited hs

theorem edit {change : Buffer.Edit α} {R : Buffer → Buffer → Prop} (h : Buffer.Settles change R)
    (hids : ∀ b b', R b b' → b'.ids = b.ids) : Keeps (Session.edit change) :=
  fun s hs => edit_at hs h (hids s.buffer)

theorem setCursor (p : Int) : Keeps (Session.edit (Buffer.setCursor p)) :=
  edit (Buffer.setCursor_settles p) fun b b' h => by rw [h, Buffer.ids, Buffer.ids]

theorem refresh : Keeps Session.refresh :=
  modify Unmoved.refreshed

end Keeps

theorem keeps_typeSearch (term : Text) : Keeps (typeSearch term) :=
  .modify fun _ => .of_eq (fun h => h) rfl rfl rfl

theorem keeps_insertChar (c : Char) : Keeps (insertChar c) := by
  refine .get_bind fun s hs => ?_
  have hinsert : Keeps (edit (Buffer.insertText s.insertionPoint [c])) :=
    .edit (Buffer.insertText_settles _ _) fun b b' h => by
      rw [if_neg (List.cons_ne_nil _ _)] at h
      rw [h.2, Buffer.ids_splice]
  exact (hinsert.bind fun _ => (Keeps.setCursor _).bind fun _ => Keeps.refresh) s hs

/-- The tag gets the first free id, and the event that tells of it follows at once. -/
theorem keeps_select (choice : Suggestion) : Keeps (select choice) := by
  intro s hs
  let id := freeId s.buffer.ids s.nextId
  let s₁ : Session := { s with nextId := id + 1 }
  have hid : s.nextId ≤ id := le_freeId s.buffer.ids s.nextId
  have htake : takeId.run s = .ok id s₁ := rfl
  obtain ⟨e, hrun⟩ | ⟨t, b, hrun, hlaid, htag, hids⟩ :=
    Buffer.insertTag_outcome (b := s₁.buffer) hs.laidOut { choice with id } s₁.insertionPoint
  · -- The id is used up although no tag has got it.
    have herror : (select choice).run s = .error e s₁ := by
      rw [select, run_bind_of_ok htake, run_bind_of_ok (EStateM.run_get s₁), EStateM.run_bind,
        run_edit_error hrun]
    rw [apply_of_run_error herror]
    exact ⟨hs.laidOut, hs.faithful, fun i hi =>
      Int.lt_trans (hs.lt_nextId i hi) (Int.lt_add_one_of_le hid)⟩
  · let s₂ : Session := { s₁ with buffer := b, searchTerm := [], showsSuggestions := false }
    let extra : List (JsonString × Json) :=
      [("tag_id", .integer t.id), ("suggestion_id", .integer choice.id),
        ("position", .integer t.position)]
    let s₃ := s₂.record .tagInserted .info ("Inserted tag ".toList ++ Text.quoted t.name) none extra
    have hok : (select choice).run s = .ok t s₃.refreshed := run_select hrun
    have hevent : (s₂.event .tagInserted .info ("Inserted tag ".toList ++ Text.quoted t.name) none
        extra).tagId? = some id :=
      (Event.tagId?_ofSession (by simp [JsonString.ofText_inj])).trans (congrArg some htag)
    rw [apply_of_run_ok hok]
    exact (hs.inserted hid hlaid hids rfl rfl rfl hevent).refreshed

theorem keeps_removeTag (id : Int) : Keeps (removeTag id) := by
  intro s hs
  obtain ⟨e, hrun⟩ | ⟨t, b, hrun, hlaid, rfl, hmem, hids⟩ :=
    Buffer.removeTag_outcome hs.laidOut id
  · have herror : (removeTag id).run s = .error e s := by
      rw [removeTag, EStateM.run_bind, run_edit_error hrun]
    rw [apply_of_run_error herror]
    exact hs
  · let s₁ : Session := { s with buffer := b }
    let extra : List (JsonString × Json) :=
      [("tag_id", .integer t.id), ("position", .integer t.position)]
    let event := s₁.event .tagRemoved .info ("Removed tag ".toList ++ Text.quoted t.name) none extra
    let s₂ := s₁.record .tagRemoved .info ("Removed tag ".toList ++ Text.quoted t.name) none extra
    have hok : (removeTag t.id).run s = .ok t s₂.refreshed := run_removeTag hrun
    have hkind : event.kind = .tagRemoved := rfl
    have hother : event.kind ≠ .tagInserted := by
      rw [hkind]
      decide
    have hevent : event.tagId? = some t.id :=
      Event.tagId?_ofSession (by simp [JsonString.ofText_inj])
    have hids₂ : s₂.buffer.ids = s.buffer.ids.filter (· ≠ t.id) := hids
    have hstep : Trail.step s.buffer.ids.toFinset event = s₂.buffer.ids.toFinset := by
      rw [Trail.step, hkind, hevent, hids₂]
      ext i
      simp [and_comm]
    rw [apply_of_run_ok hok]
    have hs₂ : s₂.Audited := hs.concat (e := event) hlaid hother
      (fun _ => ⟨t.id, List.mem_toFinset.2 hmem, hevent⟩) hstep rfl rfl
    exact hs₂.refreshed

/-- What goes away is a tag with its event, or a character that no tag covers. -/
theorem keeps_backspace : Keeps backspace := by
  refine .get_bind fun s hs => ?_
  dsimp only
  split
  · exact keeps_typeSearch _ s hs
  split
  · exact hs
  split
  · next t _ => exact ((keeps_removeTag t.id).bind fun _ => .pure ()) s hs
  · next hnone =>
      have hat : s.buffer.tagAt? (s.buffer.cursor - 1) = none := ((Option.orElse_eq_none _ _).1 hnone).2
      have hdelete : (s.apply (edit (Buffer.deleteRange (s.buffer.cursor - 1)
          s.buffer.cursor))).2.Audited := by
        refine Keeps.edit_at hs (Buffer.deleteRange_settles _ _) fun b' hb' => ?_
        rw [if_neg (by omega)] at hb'
        have hcut := Buffer.ids_cut_of_tagAt? hat
        rw [show s.buffer.cursor - 1 + 1 = s.buffer.cursor by omega] at hcut
        rw [hb'.2, hcut]
      rw [apply_bind]
      split
      · next x s' heq =>
          rw [heq] at hdelete
          exact ((Keeps.setCursor _).bind fun _ => Keeps.refresh) s' hdelete
      · next e s' heq =>
          rw [heq] at hdelete
          exact hdelete

theorem keeps_toggleTag (id : Int) : Keeps (toggleTag id) :=
  .edit (Buffer.toggleActive_settles id) fun b b' h => by rw [h, Buffer.ids, Buffer.ids]

theorem keeps_closeTag : Keeps closeTag :=
  .edit (Buffer.setActive_settles none) fun b b' h => by rw [h, Buffer.ids, Buffer.ids]

/-- The tags go away together, and one event tells of it. -/
theorem keeps_reset : Keeps reset := by
  intro s hs
  let s₁ : Session :=
    { s with buffer := .empty, searchTerm := [], showsSuggestions := !Text.isBlank [] }
  let s₂ := s₁.record .sessionReset .info "Session reset".toList none []
  have hok : reset.run s = .ok () s₂.refreshed := rfl
  rw [apply_of_run_ok hok]
  have hs₂ : s₂.Audited := by
    refine hs.concat (e := s₁.event .sessionReset .info "Session reset".toList none [])
      ⟨[], Buffer.layout_empty⟩ nofun nofun ?_ rfl rfl
    unfold Trail.step
    rfl
  exact hs₂.refreshed

theorem compositional_keeps : Compositional fun action => Keeps action where
  pure := .pure
  bind := .bind
  get_bind h _ := .get_bind fun s => h s s
  typeSearch := keeps_typeSearch
  openSearch := .modify fun _ => .of_eq (fun h => h) rfl rfl rfl
  hideSuggestions := .modify fun _ => .of_eq (fun h => h) rfl rfl rfl
  setCursor := .setCursor
  insertChar := keeps_insertChar
  removeTag := keeps_removeTag
  backspace := keeps_backspace
  toggleTag := keeps_toggleTag
  closeTag := keeps_closeTag
  reset := keeps_reset

/-! ## Runs -/

theorem Audited.apply {s : Session} (hs : s.Audited) (call : Call) :
    (s.apply call.reply).2.Audited :=
  compositional_keeps.call keeps_select call s hs

theorem audited_start (source : Text → List Suggestion) (id : Text) (limit : Int) :
    (start source id limit).Audited := by
  have hempty : Audited { (start source id limit) with journal := [], outlet := .closed } :=
    ⟨laidOut_start .closed source id limit, Trail.Faithful.nil, by simp [Trail.inserted]⟩
  exact (Unmoved.record _ .blank .sessionStarted .info "Session started".toList none []
    (by decide)).audited hempty

/-- After any calls on a fresh session its events, replayed in their order, give the ids of the tags
in its buffer: what is put in is new, what is taken out was there, and no id is put in twice. This
holds of the events as they are recorded and as they are cut to length for the log. -/
theorem events_tell_tags (source : Text → List Suggestion) (id : Text) (limit : Int)
    (calls : List Call) :
    let s := (start source id limit).afterCalls calls
    Trail.Faithful s.journal s.buffer.ids.toFinset ∧
      Trail.Faithful (s.journal.map Event.truncated) s.buffer.ids.toFinset := by
  have haudited : (start source id limit).Audited := audited_start source id limit
  have h := (afterCalls_induction (fun _ call hs => hs.apply call) haudited calls).faithful
  exact ⟨h, h.truncated⟩

end Session

end TagFormula
