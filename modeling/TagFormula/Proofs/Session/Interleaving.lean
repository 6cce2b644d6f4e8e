import TagFormula.Proofs.Session.Keys
import TagFormula.Proofs.Session.Preservation

/-!
# Sessions whose buffer is edited from outside

The calls of a session alternate with operations on its buffer that the session knows
nothing about. They may leave the cursor strictly inside a tag, and they may take ids that
the session would have given.

What is left to rely on is that the buffer is laid out as some row of cells, and that the
source of suggestions comes up with valid ones (`Sound`). Both hold after every step,
whether it succeeds or is refused, since each edit keeps a laid out buffer laid out. So a key
pressed after any steps finds what `settles_press` asks for.
-/

namespace TagFormula.Session

open Cell

/-- A call of the session, or an operation on its buffer. -/
inductive Step where
  | call (call : Call)
  | direct (op : Buffer.Operation)

/-- The session after a step, whether it succeeds or is refused. -/
def step (s : Session) : Step → Session
  | .call call => (s.apply call.reply).2
  | .direct op => { s with buffer := s.buffer.perform op }

/-- The session after steps that start with a fresh one. -/
def afterSteps (source : Text → List ValidSuggestion) (id : Text) (limit : Int)
    (steps : List Step) : Session :=
  steps.foldl step (start (fun term => (source term).map Subtype.val) id limit)

/-- The suggestion that a step selects, if it selects one. -/
def Step.selected? (s : Session) : Step → Option Suggestion
  | .call (.operation (.select choice)) => some choice.val
  | .call (.operation (.press key)) =>
    if Key.ofName key = .enter then s.suggestions.head? else none
  | _ => none

/-! ## Steps that select nothing -/

theorem apply_press_enter {s : Session} (h : s.suggestions = []) :
    s.apply (press .enter) = (.ok true, s) := by
  refine apply_of_run_ok ?_
  rw [press, run_bind_of_ok (EStateM.run_get s), h]
  rfl

variable {P : Session → Prop}

/-- Where there is nothing to select, the key that confirms does nothing. -/
theorem Stable.operation (h : Stable P) {s : Session} {op : Operation}
    (hnone : Step.selected? s (.call (.operation op)) = none) (hs : P s) :
    P (s.apply op.reply).2 := by
  by_cases henter : ∃ key, op = .press key ∧ Key.ofName key = .enter
  · obtain ⟨key, rfl, hkey⟩ := henter
    have hnil : s.suggestions = [] := by
      rw [Step.selected?, if_pos hkey] at hnone
      exact List.head?_eq_none_iff.1 hnone
    rw [Operation.reply, snd_apply_map, hkey, apply_press_enter hnil]
    exact hs
  · refine h.compositional.operation (fun key hop hkey => ?_) (fun choice hop => ?_) s hs
    · exact absurd ⟨key, hop, hkey⟩ henter
    · rw [hop] at hnone
      cases hnone

theorem Stable.step (h : Stable P) {s : Session} {step : Step}
    (hnone : step.selected? s = none) (hs : P s) : P (s.step step) := by
  cases step with
  | call call =>
    cases call with
    | operation op => exact h.operation hnone hs
    | typeKeys keys => exact h.compositional.map (h.compositional.typeKeys keys) _ s hs
  | direct op =>
    have hedit := h.edit (fun _ _ hl => hl.keepsLayout_edit op) s hs
    rwa [apply_edit] at hedit

/-! ## Steps that select a variable -/

/-- A variable is selected by itself, or as the first suggestion. -/
theorem Step.selected?_cases {s : Session} {step : Step} {v : Suggestion}
    (h : step.selected? s = some v) :
    (∃ choice, step = .call (.operation (.select choice)) ∧ v = choice.val) ∨
      ∃ key rest, step = .call (.operation (.press key)) ∧ Key.ofName key = .enter ∧
        s.suggestions = v :: rest := by
  match step with
  | .call (.operation (.select choice)) => exact .inl ⟨choice, rfl, (Option.some.inj h).symm⟩
  | .call (.operation (.press key)) =>
    rw [Step.selected?] at h
    split at h
    · next hkey =>
      obtain ⟨rest, hrest⟩ := List.head?_eq_some_iff.1 h
      exact .inr ⟨key, rest, rfl, hkey, hrest⟩
    · cases h

/-- A step that selects a variable does nothing else. -/
theorem step_of_selected? {s : Session} {step : Step} {v : Suggestion}
    (h : step.selected? s = some v) : s.step step = (s.apply (select v)).2 := by
  obtain ⟨choice, rfl, rfl⟩ | ⟨key, rest, rfl, hkey, hrest⟩ := Step.selected?_cases h
  · exact snd_apply_map _ _ s
  · refine (snd_apply_map _ _ s).trans ?_
    rw [hkey, press, apply_get_bind, hrest]
    exact snd_apply_map _ (fun _ => true) s

/-! ## Sound sessions -/

/-- The buffer is laid out, and suggestions come from a source of valid ones. -/
structure Sound (source : Text → List ValidSuggestion) (s : Session) : Prop where
  source_eq : s.source = fun term => (source term).map Subtype.val
  exists_layout : ∃ cells, s.buffer.Layout cells

variable {source : Text → List ValidSuggestion}

theorem Sound.valid_of_mem_suggestions {s : Session} (h : Sound source s) :
    ∀ v ∈ s.suggestions, v.Valid := by
  intro v hv
  rw [suggestions, h.source_eq] at hv
  split at hv
  · cases hv
  · obtain ⟨u, -, rfl⟩ := List.mem_map.1 (List.mem_of_mem_take hv)
    exact u.property

theorem Sound.valid_of_selected? {s : Session} (h : Sound source s) {step : Step}
    {v : Suggestion} (hv : step.selected? s = some v) : v.Valid := by
  obtain ⟨choice, -, rfl⟩ | ⟨key, rest, -, -, hrest⟩ := Step.selected?_cases hv
  · exact choice.property
  · exact h.valid_of_mem_suggestions v (by simp [hrest])

theorem Sound.of_eq {s s' : Session} (h : Sound source s) (hbuffer : s'.buffer = s.buffer)
    (hsource : s'.source = s.source) : Sound source s' :=
  ⟨hsource.trans h.source_eq, hbuffer ▸ h.exists_layout⟩

/-- A refused edit leaves the buffer alone, and any other one leaves it laid out. -/
theorem Sound.apply_edit {α : Type} {s : Session} (h : Sound source s) {change : Buffer.Edit α}
    (hchange : ∀ cells, s.buffer.Layout cells → Buffer.KeepsLayout change s.buffer) :
    Sound source (s.apply (edit change)).2 := by
  obtain ⟨cells, hlayout⟩ := h.exists_layout
  obtain ⟨e, hrun, -⟩ | ⟨x, b, cells', hrun, hlayout'⟩ := hchange cells hlayout
  · rw [apply_of_run_error (run_edit_error hrun)]
    exact h
  · rw [apply_of_run_ok (run_edit hrun)]
    exact ⟨h.source_eq, cells', hlayout'⟩

theorem stable_sound : Stable (Sound source) where
  edit hchange s h := h.apply_edit (hchange s.buffer)
  of_eq h hbuffer hsource _ := h.of_eq hbuffer hsource

/-- Selecting a valid suggestion puts it in under an id that no tag has. -/
theorem Sound.apply_select {s : Session} (h : Sound source s) {v : Suggestion} (hv : v.Valid) :
    ∃ t s', s.apply (select v) = (.ok t, s') ∧ Sound source s' ∧ t ∈ s'.buffer.tags ∧
      t.id = freeId s.buffer.ids s.nextId ∧ s'.nextId = t.id + 1 := by
  obtain ⟨cells, hlayout⟩ := h.exists_layout
  obtain ⟨l, r, b, rfl, hplace, hinsert, hlayout', -⟩ := exists_run_insertTag hlayout hv
  refine ⟨_, _, apply_of_run_ok (run_select hinsert), ⟨?_, ?_⟩, ?_, rfl, ?_⟩
  · rw [source_refreshed]
    exact h.source_eq
  · rw [buffer_refreshed]
    exact ⟨_, hlayout'⟩
  · rw [buffer_refreshed, hplace]
    exact hlayout'.mem_tags
  · rw [nextId_refreshed]
    rfl

theorem Sound.step {s : Session} (h : Sound source s) (step : Step) :
    Sound source (s.step step) := by
  cases hselected : step.selected? s with
  | none => exact stable_sound.step hselected h
  | some v =>
    obtain ⟨t, s', hselect, hsound, -⟩ := h.apply_select (h.valid_of_selected? hselected)
    rw [step_of_selected? hselected, hselect]
    exact hsound

theorem sound_start (id : Text) (limit : Int) :
    Sound source (start (fun term => (source term).map Subtype.val) id limit) :=
  ⟨rfl, [], Buffer.layout_empty⟩

theorem sound_afterSteps (id : Text) (limit : Int) (steps : List Step) :
    Sound source (afterSteps source id limit steps) := by
  suffices h : ∀ s, Sound source s → Sound source (steps.foldl Session.step s) from
    h _ (sound_start id limit)
  induction steps with
  | nil => exact fun s h => h
  | cons step steps ih => exact fun s h => ih _ (h.step step)

/-- Whatever has been done to a session and to its buffer before, every key is taken without
an error and leaves a consistent buffer. The row of cells differs from the one before in one
cell at most, which has been put in or taken out as a whole. And the cursor is not strictly
inside a tag if the key is one that acts on the buffer, or if the buffer has changed. -/
theorem press_total (source : Text → List ValidSuggestion) (id : Text) (limit : Int)
    (steps : List Step) (key : Text) :
    let s := afterSteps source id limit steps
    ∃ known s', s.apply (press (.ofName key)) = (.ok known, s') ∧
      s'.buffer.Layout s'.buffer.cells ∧ s'.buffer.Consistent ∧ s'.buffer.check = .ok () ∧
      ChangesOne s.buffer.cells s'.buffer.cells ∧
      ((Key.ofName key).ActsOn s ∨ s'.buffer ≠ s.buffer →
        s'.buffer.IsBoundary s'.buffer.cursor) := by
  intro s
  have hs : Sound source s := sound_afterSteps id limit steps
  obtain ⟨cells, h⟩ := hs.exists_layout
  by_cases hkey : (Key.ofName key).ActsOn s
  · obtain ⟨known, s', hrun, l, r, hlayout, hcursor, hchange⟩ :=
      settles_press h hs.valid_of_mem_suggestions hkey
    refine ⟨known, s', apply_of_run_ok hrun, ?_, hlayout.consistent, hlayout.check_eq, ?_, ?_⟩
    · rwa [hlayout.cells_eq]
    · rwa [h.cells_eq, hlayout.cells_eq]
    · intro _
      rw [hcursor]
      exact hlayout.isBoundary
  · obtain ⟨known, s', hrun, hsame⟩ := idles_press hkey
    refine ⟨known, s', apply_of_run_ok hrun, ?_⟩
    rw [hsame]
    refine ⟨?_, h.consistent, h.check_eq, .same, fun hor => ?_⟩
    · rwa [h.cells_eq]
    · exact absurd hor (by simpa using hkey)

end TagFormula.Session
