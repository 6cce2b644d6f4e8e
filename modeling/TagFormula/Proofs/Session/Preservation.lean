import TagFormula.Proofs.Session.Result

/-!
# What actions preserve

An action that is refused in its middle leaves what it had done by then. So a property of
sessions is only kept by an action if it holds afterwards in either case
(`Preserves`). It is enough that every part of the action keeps it.

The parts of most actions are edits of the buffer and changes of what the session shows. A
property that both leave alone (`Stable`) is kept by every action but the selection of a
variable, which takes an id.
-/

namespace TagFormula.Session

/-- After the action, whether it returns or is refused, a property holds if it held before. -/
def Preserves {α : Type} (P : Session → Prop) (action : Action α) : Prop :=
  ∀ s : Session, P s → P (s.apply action).2

theorem apply_bind {α β : Type} (action : Action α) (next : α → Action β) (s : Session) :
    (s.apply (action >>= next)).2 =
      match s.apply action with
      | (.ok x, s') => (s'.apply (next x)).2
      | (.error _, s') => s' := by
  cases hrun : action.run s with
  | ok x s' =>
      rw [apply_of_run_ok hrun]
      have hbind : (action >>= next).run s = (next x).run s' := run_bind_of_ok hrun
      dsimp only
      cases hnext : (next x).run s' with
      | ok y s'' => rw [apply_of_run_ok (hbind.trans hnext), apply_of_run_ok hnext]
      | error e s'' => rw [apply_of_run_error (hbind.trans hnext), apply_of_run_error hnext]
  | error e s' =>
      have hbind : (action >>= next).run s = .error e s' := by rw [EStateM.run_bind, hrun]
      rw [apply_of_run_error hrun, apply_of_run_error hbind]

theorem apply_get_bind {α : Type} (next : Session → Action α) (s : Session) :
    (s.apply (get >>= next)).2 = (s.apply (next s)).2 := by
  rw [apply_bind]
  rfl

theorem snd_apply_map {α β : Type} (action : Action α) (f : α → β) (s : Session) :
    (s.apply (f <$> action)).2 = (s.apply action).2 := by
  rw [map_eq_pure_bind, apply_bind]
  split
  · next x s' heq => rw [heq, apply_of_run_ok (EStateM.run_pure (f x) s')]
  · next e s' heq => rw [heq]

theorem apply_edit {α : Type} (change : Buffer.Edit α) (s : Session) :
    s.apply (edit change) =
      ((s.buffer.apply change).1, { s with buffer := (s.buffer.apply change).2 }) := by
  unfold apply edit Buffer.apply
  cases change s.buffer <;> rfl

namespace Preserves

variable {α β : Type} {P : Session → Prop}

theorem pure (x : α) : Preserves P (Pure.pure x) :=
  fun _ hs => hs

theorem bind {action : Action α} {next : α → Action β} (h : Preserves P action)
    (hnext : ∀ x, Preserves P (next x)) : Preserves P (action >>= next) := by
  intro s hs
  have hs' := h s hs
  rw [apply_bind]
  split
  · next x s' heq =>
      rw [heq] at hs'
      exact hnext x s' hs'
  · next e s' heq =>
      rw [heq] at hs'
      exact hs'

theorem get_bind {next : Session → Action α}
    (h : ∀ s : Session, P s → P (s.apply (next s)).2) : Preserves P (get >>= next) := by
  intro s hs
  rw [apply_get_bind]
  exact h s hs

theorem modify {f : Session → Session} (h : ∀ s : Session, P s → P (f s)) :
    Preserves P (modifyGet fun s => ((), f s) : Action Unit) :=
  fun s hs => h s hs

end Preserves

/-- A property that is kept by edits, as far as they keep a laid out buffer laid out, and that does
not depend on the search, the result or the journal. -/
structure Stable (P : Session → Prop) : Prop where
  edit : ∀ {α : Type} {change : Buffer.Edit α},
    (∀ (b : Buffer) cells, b.Layout cells → Buffer.KeepsLayout change b) →
      Preserves P (Session.edit change)
  of_eq : ∀ {s s' : Session}, P s → s'.buffer = s.buffer → s'.source = s.source →
    s'.nextId = s.nextId → P s'

namespace Stable

variable {P : Session → Prop}

theorem refresh (h : Stable P) : Preserves P Session.refresh :=
  .modify fun s hs => by
    obtain ⟨result, journal, outlet, heq⟩ := exists_refreshed s
    exact h.of_eq hs (by rw [heq]) (by rw [heq]) (by rw [heq])

theorem elementary (h : Stable P) : Elementary (Preserves P) where
  pure := .pure
  bind := .bind
  get_bind hnext _ := .get_bind fun s => hnext s s
  edit := h.edit
  typeSearch _ := .modify fun _ hs => h.of_eq hs rfl rfl rfl
  openSearch := .modify fun _ hs => h.of_eq hs rfl rfl rfl
  hideSuggestions := .modify fun _ hs => h.of_eq hs rfl rfl rfl
  log _ _ _ := .modify fun _ hs => h.of_eq hs rfl rfl rfl
  refresh := h.refresh

theorem compositional (h : Stable P) : Compositional (Preserves P) :=
  h.elementary.compositional

end Stable

end TagFormula.Session
