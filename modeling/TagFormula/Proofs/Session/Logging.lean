import TagFormula.Proofs.Session.Preservation

/-!
# Logging does not disturb a session

The events of a session are sent while its actions are under way, through an outlet about which
nothing is assumed. What they go through may be replaced before every single event, a delivery
may fail, and the error is caught where the event is emitted.

What can be observed of a run is, for every call, what it returns or why it is refused, and the
session after it, but for its outlet. No action depends on the outlet that it finds (`Blind`): each
of its parts returns the same and leaves the same session, and so does the whole. So the
observations of a run are the same with all outlets (`observe_eq`).

What is sent is what the journal keeps, one event after the other (`sent_afterCalls`).
-/

namespace TagFormula.Session

/-! ## Actions that do not depend on the outlet -/

/-- What can be seen of an outcome. -/
def seen {α : Type} : EStateM.Result BufferError Session α → Except BufferError α × Session
  | .ok x s => (.ok x, s.withOutlet .closed)
  | .error e s => (.error e, s.withOutlet .closed)

/-- Whatever outlet the action finds, what can be seen of it is the same. -/
def Blind {α : Type} (action : Action α) : Prop :=
  ∀ s o, seen (action.run (s.withOutlet o)) = seen (action.run s)

theorem eq_withOutlet {s s' : Session} (h : s'.withOutlet .closed = s.withOutlet .closed) :
    s' = s.withOutlet s'.outlet :=
  congrArg (·.withOutlet s'.outlet) h

namespace Blind

variable {α β : Type}

theorem pure (x : α) : Blind (Pure.pure x) :=
  fun _ _ => rfl

/-- The rest of an action finds the same session with another outlet. -/
theorem bind {action : Action α} {next : α → Action β} (h : Blind action)
    (hnext : ∀ x, Blind (next x)) : Blind (action >>= next) := by
  intro s o
  have hs := h s o
  rw [EStateM.run_bind, EStateM.run_bind]
  cases hrun : action.run s with
  | error e t =>
      cases hrun' : action.run (s.withOutlet o) with
      | error e' t' =>
          rw [hrun, hrun'] at hs
          obtain ⟨he, ht⟩ := Prod.mk.inj hs
          exact Prod.ext (congrArg Except.error (Except.error.inj he)) ht
      | ok x' t' =>
          rw [hrun, hrun'] at hs
          exact nomatch (Prod.mk.inj hs).1
  | ok x t =>
      cases hrun' : action.run (s.withOutlet o) with
      | error e' t' =>
          rw [hrun, hrun'] at hs
          exact nomatch (Prod.mk.inj hs).1
      | ok x' t' =>
          rw [hrun, hrun'] at hs
          obtain ⟨hx, ht⟩ := Prod.mk.inj hs
          obtain rfl := Except.ok.inj hx
          dsimp only
          rw [eq_withOutlet ht]
          exact hnext x' t _

theorem get_bind {next : Session → Action α} (h : ∀ s, Blind (next s))
    (hnext : ∀ s o, next (s.withOutlet o) = next s) : Blind (MonadState.get >>= next) := by
  intro s o
  have hget (t : Session) : (MonadState.get >>= next).run t = (next t).run t := rfl
  rw [hget, hget, hnext]
  exact h s s o

theorem modify {f : Session → Session}
    (h : ∀ s o, (f (s.withOutlet o)).withOutlet .closed = (f s).withOutlet .closed) :
    Blind (modifyGet fun s => ((), f s) : Action Unit) :=
  fun s o => congrArg (Prod.mk (Except.ok ())) (h s o)

theorem edit (change : Buffer.Edit α) : Blind (Session.edit change) := by
  intro s o
  have hbuffer : (s.withOutlet o).buffer = s.buffer := rfl
  simp only [EStateM.run, Session.edit, hbuffer]
  cases change s.buffer <;> rfl

theorem refresh : Blind Session.refresh := by
  refine modify fun s o => ?_
  have hbuffer : (s.withOutlet o).buffer = s.buffer := rfl
  unfold refreshed
  simp only [hbuffer]
  cases s.buffer.calculate <;> rfl

end Blind

theorem elementary_blind : Elementary fun action => Blind action where
  pure := .pure
  bind := .bind
  get_bind := .get_bind
  edit _ := .edit _
  typeSearch _ := .modify fun _ _ => rfl
  openSearch := .modify fun _ _ => rfl
  hideSuggestions := .modify fun _ _ => rfl
  log _ _ _ := .modify fun _ _ => rfl
  refresh := .refresh

theorem blind_call (call : Call) : Blind call.reply :=
  elementary_blind.compositional.call (elementary_blind.select fun _ _ => rfl) call

/-! ## Observations -/

/-- What can be observed of a run: the outcome of every call and the session after it, but for its
outlet. -/
def observe (s : Session) : List Call → List (Except BufferError Reply × Session)
  | [] => []
  | call :: rest =>
      ((s.apply call.reply).1, (s.apply call.reply).2.withOutlet .closed) ::
        observe (s.apply call.reply).2 rest

theorem seen_run {α : Type} (s : Session) (action : Action α) :
    seen (action.run s) = ((s.apply action).1, (s.apply action).2.withOutlet .closed) := by
  cases hrun : action.run s with
  | ok x t => rw [apply_of_run_ok hrun]; rfl
  | error e t => rw [apply_of_run_error hrun]; rfl

/-- The observations do not depend on the outlet. -/
theorem observe_eq {s s' : Session} (h : s'.withOutlet .closed = s.withOutlet .closed)
    (calls : List Call) : s'.observe calls = s.observe calls := by
  induction calls generalizing s s' with
  | nil => rfl
  | cons call calls ih =>
      have hblind := blind_call call s s'.outlet
      rw [← eq_withOutlet h, seen_run, seen_run] at hblind
      rw [observe, observe, hblind, ih (Prod.mk.inj hblind).2]

/-- At every step of a run the result is current. -/
theorem current_of_mem_observe {s : Session} (hlaid : s.buffer.LaidOut) (hs : s.Current)
    {calls : List Call} {step : Except BufferError Reply × Session}
    (h : step ∈ s.observe calls) : step.2.Current := by
  induction calls generalizing s with
  | nil => simp [observe] at h
  | cons call calls ih =>
      obtain ⟨hlaid', hcurrent⟩ := hs.apply hlaid call
      rw [observe] at h
      rcases List.mem_cons.1 h with rfl | h
      · exact hcurrent
      · exact ih hlaid' hcurrent h

/-- Whatever calls are made on a fresh session, and whatever becomes of its log: after every call,
returned or refused, the result is the outcome of the formula. What the calls return, the errors
they are refused with and the sessions after them are the same with all outlets. -/
theorem result_current_and_log_irrelevant (source : Text → List Suggestion) (id : Text)
    (limit : Int) (calls : List Call) (outlet outlet' : Outlet) :
    let s := startWith outlet source id limit
    let s' := startWith outlet' source id limit
    (∀ step ∈ s.observe calls,
      step.2.result = Formula.calculate step.2.buffer.text step.2.buffer.tags) ∧
    s.observe calls = s'.observe calls := by
  intro s s'
  have hlaid : s.buffer.LaidOut := laidOut_start outlet source id limit
  have hcurrent : s.Current := current_start outlet source id limit
  have halike : s.withOutlet .closed = s'.withOutlet .closed := rfl
  exact ⟨fun _ hstep => current_of_mem_observe hlaid hcurrent hstep, observe_eq halike calls⟩

/-! ## What is sent -/

/-- The outlet is what the first one has become, after the events of the journal have been sent. -/
def Sent (first : Outlet) (s : Session) : Prop :=
  s.outlet = s.journal.foldl (fun o e => o.emit s.id e) first

namespace Sent

variable {first : Outlet} {s s' : Session}

theorem of_eq (h : s.Sent first) (hjournal : s'.journal = s.journal)
    (houtlet : s'.outlet = s.outlet) (hid : s'.id = s.id) : s'.Sent first := by
  rw [Sent, houtlet, hjournal, hid]
  exact h

theorem record (h : s.Sent first) (kind : EventKind) (level : EventLevel) (message : Text)
    (errorCode : Option String) (extra : List (JsonString × Json)) :
    (s.record kind level message errorCode extra).Sent first := by
  rw [Sent] at h
  simp only [Sent, Session.record, List.foldl_append, List.foldl_cons, List.foldl_nil]
  rw [← h]

theorem refreshed (h : s.Sent first) : s.refreshed.Sent first := by
  unfold Session.refreshed
  dsimp only
  split
  · exact h
  · exact record h _ _ _ _ _
  · exact record h _ _ _ _ _

end Sent

theorem elementary_sent (first : Outlet) : Elementary (Preserves (Sent first)) where
  pure := .pure
  bind := .bind
  get_bind hnext _ := .get_bind fun s => hnext s s
  edit _ s hs := by
    rw [apply_edit]
    exact hs.of_eq rfl rfl rfl
  typeSearch _ := .modify fun _ hs => hs.of_eq rfl rfl rfl
  openSearch := .modify fun _ hs => hs.of_eq rfl rfl rfl
  hideSuggestions := .modify fun _ hs => hs.of_eq rfl rfl rfl
  log _ _ _ := .modify fun _ hs => hs.record _ _ _ _ _
  refresh := .modify fun _ hs => hs.refreshed

/-- What a fresh session has sent after any calls, whether they return or are refused, are the
events of its journal, each of them once and in their order. -/
theorem sent_afterCalls (outlet : Outlet) (source : Text → List Suggestion) (id : Text)
    (limit : Int) (calls : List Call) :
    ((startWith outlet source id limit).afterCalls calls).Sent outlet := by
  have htake : Preserves (Sent outlet) takeId := fun _ hs => hs.of_eq rfl rfl rfl
  have hcall (s : Session) (call : Call) (hs : s.Sent outlet) :
      (s.apply call.reply).2.Sent outlet :=
    (elementary_sent outlet).compositional.call ((elementary_sent outlet).select htake) call s hs
  refine afterCalls_induction hcall (Sent.record ?_ _ _ _ _ _) calls
  rfl

end TagFormula.Session
