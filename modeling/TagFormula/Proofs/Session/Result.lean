import TagFormula.Proofs.Buffer.Atomicity
import TagFormula.Proofs.Session.Composition

/-!
# The result is current

The result that a session shows is the outcome of the formula in its buffer, after
every call and also after a call that is refused. The buffer of a session is laid out
from its start on, and nothing is assumed of the source of suggestions.

Inside an action the result may lag behind: after the text has changed and before the
formula is evaluated anew. `Leads P action Q` follows an action from sessions with `P` to
sessions with `Q` and asks at every place where it may be refused that the result is
current there. On a laid out buffer edits are all or nothing (`Settles`), so an edit that
is refused is harmless as long as nothing has changed before it. The edits that come after
a change are those that set the cursor, and the change has made room for it
(`insertText_room`, `deleteRange_room`).
-/

namespace TagFormula

namespace Buffer

/-- The buffer shows some row of cells. -/
def LaidOut (b : Buffer) : Prop :=
  ∃ cells, b.Layout cells

/-- On every laid out buffer the edit stops without a change, or succeeds with a laid out buffer that
is related to the one before. -/
def Settles {α : Type} (edit : Edit α) (R : Buffer → Buffer → Prop) : Prop :=
  ∀ b : Buffer, b.LaidOut → (∃ e, edit.run b = .error e b) ∨
    ∃ x b', edit.run b = .ok x b' ∧ b'.LaidOut ∧ R b b'

/-- An edit that keeps a layout does not stop half done. -/
theorem Ends.settles {α : Type} {edit : Edit α} {R : Buffer → Buffer → Prop} (h : Ends edit R)
    (hkeeps : ∀ (b : Buffer) cells, b.Layout cells → KeepsLayout edit b) : Settles edit R := by
  rintro b ⟨cells, hlayout⟩
  rcases hkeeps b cells hlayout with ⟨e, hrun, -⟩ | ⟨x, b', cells', hrun, hlayout'⟩
  · exact .inl ⟨e, hrun⟩
  · obtain ⟨e, herror⟩ | ⟨b'', herror, -⟩ | ⟨y, b'', hok, hR⟩ := h b
    · rw [hrun] at herror
      cases herror
    · rw [hrun] at herror
      cases herror
    · rw [hrun] at hok
      cases hok
      exact .inr ⟨x, b', hrun, ⟨cells', hlayout'⟩, hR⟩

theorem Settles.mono {α : Type} {edit : Edit α} {R S : Buffer → Buffer → Prop}
    (h : Settles edit R) (hRS : ∀ b b', R b b' → S b b') : Settles edit S := fun b hb =>
  (h b hb).imp_right fun ⟨x, b', hrun, hlayout, hR⟩ => ⟨x, b', hrun, hlayout, hRS b b' hR⟩

/-! ### The edits -/

theorem insertText_settles (p : Int) (s : Text) :
    Settles (insertText p s) fun b b' =>
      if s = [] then b' = b else b'.check = .ok () ∧ b' = b.splice p s :=
  (insertText_ends p s).settles fun _ _ h => h.keepsLayout_insertText p s

theorem deleteRange_settles (p q : Int) :
    Settles (deleteRange p q) fun b b' =>
      if p = q then b' = b else b'.check = .ok () ∧ b' = b.cut p q :=
  (deleteRange_ends p q).settles fun _ _ h => h.keepsLayout_deleteRange p q

theorem setCursor_settles (p : Int) :
    Settles (setCursor p) fun b b' => b' = { b with cursor := p } :=
  (setCursor_ends p).settles fun _ _ h => h.keepsLayout_setCursor p

theorem setActive_settles (id : Option Int) :
    Settles (setActive id) fun b b' => b' = { b with active := id } :=
  (setActive_ends id).settles fun _ _ h => h.keepsLayout_setActive id

theorem toggleActive_settles (id : Int) :
    Settles (toggleActive id) fun b b' =>
      b' = { b with active := if b.active = some id then none else some id } :=
  (toggleActive_ends id).settles fun _ _ h => h.keepsLayout_toggleActive id

/-! ### Text and cursor -/

theorem calculate_withCursor (b : Buffer) (p : Int) :
    ({ b with cursor := p } : Buffer).calculate = b.calculate := rfl

theorem calculate_withActive (b : Buffer) (id : Option Int) :
    ({ b with active := id } : Buffer).calculate = b.calculate := rfl

theorem length_splice (b : Buffer) (p : Int) (s : Text) :
    (b.splice p s).length = b.length + s.length := by
  have hsplit := congrArg List.length (Slice.before_append_after b.text p)
  simp only [splice, length, List.length_append] at hsplit ⊢
  omega

/-- Where text has been put in, the cursor can be set behind it. -/
theorem insertText_room (p : Int) (s : Text) :
    Ends (insertText p s) fun _ b' => 0 ≤ p + s.length ∧ p + s.length ≤ b'.length := by
  intro b
  by_cases hp : b.IsBoundary p
  · have h₀ := hp.nonneg
    have h₁ := hp.le_length
    rw [run_insertText hp]
    cases s with
    | nil => exact .inr (.inr ⟨(), b, rfl, by simpa using h₀, by simpa using h₁⟩)
    | cons c s =>
        obtain herror | hkept | ⟨x, b', hrun, -, rfl⟩ := Ends.transaction (splice p (c :: s)) b
        · exact .inl herror
        · exact .inr (.inl hkept)
        · refine .inr (.inr ⟨x, _, hrun, by omega, ?_⟩)
          rw [length_splice]
          omega
  · obtain ⟨e, hrun, -⟩ := insertText_refused hp s
    exact .inl ⟨e, hrun⟩

/-- Where a range has been taken out, the cursor can be set to its start. -/
theorem deleteRange_room {p q : Int} (hpq : p < q) :
    Ends (deleteRange p q) fun _ b' => 0 ≤ p ∧ p ≤ b'.length := by
  intro b
  by_cases hin : p ≤ q ∧ 0 ≤ p ∧ q ≤ b.length ∧ (p = q ∨ b.IsBoundary p ∧ b.IsBoundary q)
  · obtain ⟨-, h₀, -, heq | ⟨hp, hq⟩⟩ := hin
    · omega
    rw [run_deleteRange hp hq hpq]
    obtain herror | hkept | ⟨x, b', hrun, -, rfl⟩ := Ends.transaction (cut p q) b
    · exact .inl herror
    · exact .inr (.inl hkept)
    · refine .inr (.inr ⟨x, _, hrun, h₀, ?_⟩)
      have hle := hp.le_length
      have hbefore : (Slice.before b.text p).length = p.toNat := by
        rw [length] at hle
        rw [Slice.before, Slice.resolve_of_nonneg h₀ hle, List.length_take]
        omega
      simp only [cut, length, List.length_append, hbefore]
      omega
  · obtain ⟨e, hrun, -⟩ := deleteRange_refused hin
    exact .inl ⟨e, hrun⟩

end Buffer

namespace Session

/-- The result is the outcome of the formula. -/
def Current (s : Session) : Prop :=
  s.result = s.buffer.calculate

/-- From a session with `P` the action succeeds with `Q`, or is refused with a current result; the
buffer is laid out all the time. -/
def Leads {α : Type} (P : Session → Prop) (action : Action α) (Q : Session → Prop) : Prop :=
  ∀ s : Session, s.buffer.LaidOut → P s →
    (∃ e s', action.run s = .error e s' ∧ s'.buffer.LaidOut ∧ s'.Current) ∨
      ∃ x s', action.run s = .ok x s' ∧ s'.buffer.LaidOut ∧ Q s'

namespace Leads

variable {α β : Type} {P Q R : Session → Prop}

theorem pure (x : α) : Leads P (Pure.pure x) P :=
  fun s hlaid hs => .inr ⟨x, s, rfl, hlaid, hs⟩

theorem get : Leads P (MonadState.get : Action Session) P :=
  fun s hlaid hs => .inr ⟨s, s, rfl, hlaid, hs⟩

theorem bind {action : Action α} {next : α → Action β} (h : Leads P action Q)
    (hnext : ∀ x, Leads Q (next x) R) : Leads P (action >>= next) R := by
  intro s hlaid hs
  obtain ⟨e, s', hrun, hcurrent⟩ | ⟨x, s', hrun, hlaid', hQ⟩ := h s hlaid hs
  · exact .inl ⟨e, s', by rw [EStateM.run_bind, hrun], hcurrent⟩
  · rw [run_bind_of_ok hrun]
    exact hnext x s' hlaid' hQ

theorem of_run_ok {action : Action α} (h : Leads P action Q) {s s' : Session} {x : α}
    (hlaid : s.buffer.LaidOut) (hs : P s) (hrun : action.run s = .ok x s') : Q s' := by
  obtain ⟨e, s'', hrun', -⟩ | ⟨y, s'', hrun', -, hQ⟩ := h s hlaid hs
  · rw [hrun] at hrun'
    cases hrun'
  · rw [hrun] at hrun'
    cases hrun'
    exact hQ

theorem modify {f : Session → Session} (hbuffer : ∀ s, (f s).buffer = s.buffer)
    (h : ∀ s, P s → Q (f s)) : Leads P (modifyGet fun s => ((), f s) : Action Unit) Q :=
  fun s hlaid hs => .inr ⟨(), f s, rfl, (hbuffer s).symm ▸ hlaid, h s hs⟩

/-- A refused edit has changed nothing. -/
theorem edit {change : Buffer.Edit α} {Φ : Buffer → Prop}
    (h : Buffer.Settles change fun _ b' => Φ b') :
    Leads Current (Session.edit change) fun s => Φ s.buffer := by
  intro s hlaid hs
  obtain ⟨e, hrun⟩ | ⟨x, b', hrun, hlaid', hΦ⟩ := h s.buffer hlaid
  · exact .inl ⟨e, s, run_edit_error hrun, hlaid, hs⟩
  · exact .inr ⟨x, _, run_edit hrun, hlaid', hΦ⟩

/-- An edit of which only matters that it is all or nothing. -/
theorem edit_any {change : Buffer.Edit α} {S : Buffer → Buffer → Prop}
    (h : Buffer.Settles change S) : Leads Current (Session.edit change) fun _ => True :=
  edit (Φ := fun _ => True) (h.mono fun _ _ _ => trivial)

/-- An edit that leaves text and tags alone. -/
theorem edit_current {change : Buffer.Edit α} {S : Buffer → Buffer → Prop}
    (h : Buffer.Settles change S) (hsame : ∀ b b', S b b' → b'.calculate = b.calculate) :
    Leads Current (Session.edit change) Current := by
  intro s hlaid hs
  obtain ⟨e, hrun⟩ | ⟨x, b', hrun, hlaid', hS⟩ := h s.buffer hlaid
  · exact .inl ⟨e, s, run_edit_error hrun, hlaid, hs⟩
  · exact .inr ⟨x, _, run_edit hrun, hlaid', hs.trans (hsame s.buffer b' hS).symm⟩

/-- The cursor is set in a text that has room for it. -/
theorem setCursor {p : Int} :
    Leads (fun s => 0 ≤ p ∧ p ≤ s.buffer.length) (Session.edit (Buffer.setCursor p))
      fun _ => True := by
  rintro s ⟨cells, hlayout⟩ ⟨h₀, h₁⟩
  rw [hlayout.length_eq] at h₁
  have hrun := hlayout.run_setCursor h₀ h₁
  exact .inr ⟨(), _, run_edit hrun, ⟨cells, hlayout.withCursor h₀ h₁⟩, trivial⟩

theorem refresh : Leads P Session.refresh Current :=
  modify buffer_refreshed fun s _ => by rw [Current, result_refreshed, buffer_refreshed]

end Leads

/-! ## The actions -/

theorem leads_typeSearch {P : Session → Prop} (term : Text)
    (h : ∀ s shown, P s → P { s with searchTerm := term, showsSuggestions := shown }) :
    Leads P (typeSearch term) P :=
  .modify (fun _ => rfl) fun s hs => h s _ hs

theorem leads_log (kind : EventKind) (message : Text) (extra : List (JsonString × Json)) :
    Leads (fun _ => True) (log kind message extra) fun _ => True :=
  .modify (fun _ => rfl) fun _ _ => trivial

theorem leads_insertChar (c : Char) : Leads Current (insertChar c) Current := by
  refine Leads.get.bind fun s => ?_
  have hroom := (Buffer.insertText_room s.insertionPoint [c]).settles fun _ _ hlayout =>
    hlayout.keepsLayout_insertText _ _
  refine (Leads.edit hroom).bind fun _ => ?_
  exact Leads.setCursor.bind fun _ => .refresh

theorem leads_takeId : Leads Current takeId Current :=
  fun _ hlaid hs => .inr ⟨_, _, rfl, hlaid, hs⟩

theorem leads_select (choice : Suggestion) : Leads Current (select choice) Current := by
  refine leads_takeId.bind fun id => Leads.get.bind fun s => ?_
  have hinsert := (Buffer.insertTag_ends { choice with id } s.insertionPoint).settles
    fun _ _ hlayout => hlayout.keepsLayout_insertTag _ _
  refine (Leads.edit_any hinsert).bind fun t => ?_
  refine (leads_typeSearch [] fun _ _ _ => trivial).bind fun _ => ?_
  exact (leads_log _ _ _).bind fun _ => Leads.refresh.bind fun _ => .pure t

theorem leads_removeTag (id : Int) : Leads Current (removeTag id) Current := by
  have hremove := (Buffer.removeTag_ends id).settles fun _ _ hlayout =>
    hlayout.keepsLayout_removeTag id
  refine (Leads.edit_any hremove).bind fun t => ?_
  exact (leads_log _ _ _).bind fun _ => Leads.refresh.bind fun _ => .pure t

theorem leads_backspace : Leads Current backspace Current := by
  refine Leads.get.bind fun s => ?_
  dsimp only
  split
  · exact leads_typeSearch _ fun _ _ hs => hs
  split
  · exact .pure ()
  split
  · next t _ => exact (leads_removeTag t.id).bind fun _ => .pure ()
  · have hlt : s.buffer.cursor - 1 < s.buffer.cursor := by omega
    have hroom := (Buffer.deleteRange_room hlt).settles fun _ _ hlayout =>
      hlayout.keepsLayout_deleteRange _ _
    refine (Leads.edit hroom).bind fun _ => ?_
    exact Leads.setCursor.bind fun _ => .refresh

/-- Moving the cursor. -/
theorem leads_setCursor (p : Int) : Leads Current (edit (Buffer.setCursor p)) Current :=
  .edit_current (Buffer.setCursor_settles p) fun b _ h => h ▸ b.calculate_withCursor p

theorem leads_toggleTag (id : Int) : Leads Current (toggleTag id) Current :=
  .edit_current (Buffer.toggleActive_settles id) fun b _ h => h ▸ b.calculate_withActive _

theorem leads_closeTag : Leads Current closeTag Current :=
  .edit_current (Buffer.setActive_settles none) fun b _ h => h ▸ b.calculate_withActive none

theorem leads_reset : Leads Current reset Current := by
  have hreset : Buffer.Settles Buffer.reset fun _ b' => b' = Buffer.empty :=
    fun b _ => .inr ⟨(), Buffer.empty, rfl, ⟨[], Buffer.layout_empty⟩, rfl⟩
  refine (Leads.edit_any hreset).bind fun _ => ?_
  refine (leads_typeSearch [] fun _ _ _ => trivial).bind fun _ => ?_
  exact (leads_log _ _ _).bind fun _ => .refresh

theorem compositional_leads :
    Compositional fun action => Leads Current action Current where
  pure := .pure
  bind := .bind
  get_bind h _ := Leads.get.bind h
  typeSearch term := leads_typeSearch term fun _ _ hs => hs
  openSearch := .modify (fun _ => rfl) fun _ hs => hs
  hideSuggestions := .modify (fun _ => rfl) fun _ hs => hs
  setCursor := leads_setCursor
  insertChar := leads_insertChar
  removeTag := leads_removeTag
  backspace := leads_backspace
  toggleTag := leads_toggleTag
  closeTag := leads_closeTag
  reset := leads_reset

/-! ## Calls -/

/-- A key may be refused in the middle of a text; what was typed before it stays, with its
result. -/
theorem leads_typeKeys (keys : Text) : Leads Current (typeKeys keys) Current :=
  compositional_leads.typeKeys keys

theorem leads_call (call : Call) : Leads Current call.reply Current :=
  compositional_leads.call leads_select call

/-- After a call, whether it returns or is refused, the buffer is laid out and the result is the
outcome of the formula. -/
theorem Current.apply {s : Session} (hlaid : s.buffer.LaidOut) (hs : s.Current) (call : Call) :
    (s.apply call.reply).2.buffer.LaidOut ∧ (s.apply call.reply).2.Current := by
  obtain ⟨e, s', hrun, hcurrent⟩ | ⟨x, s', hrun, hcurrent⟩ := leads_call call s hlaid hs
  · rwa [apply_of_run_error hrun]
  · rwa [apply_of_run_ok hrun]

theorem laidOut_start (outlet : Outlet) (source : Text → List Suggestion) (id : Text)
    (limit : Int) : (startWith outlet source id limit).buffer.LaidOut :=
  ⟨[], Buffer.layout_empty⟩

theorem current_start (outlet : Outlet) (source : Text → List Suggestion) (id : Text)
    (limit : Int) : (startWith outlet source id limit).Current := by
  have hempty : Buffer.empty.calculate = .blank := rfl
  exact hempty.symm

end Session

end TagFormula
