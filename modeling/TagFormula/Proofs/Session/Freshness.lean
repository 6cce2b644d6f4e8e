import TagFormula.Proofs.Session.Interleaving

/-!
# The ids that a session gives

A session counts the ids of its tags upwards and passes over those that the buffer has
already, since tags may have been put in from outside under any ids. The search for the next
id is over after as many ids as there are tags, because it only passes over ids that are
taken.

The count is kept in the session and not in the buffer. So it goes on after a removal, a
deletion or a reset, and whatever is done to the buffer leaves it alone (`stable_nextId`).
Only the selection of a variable takes an id, and it takes the first free one, so the ids
ascend over the whole life of a session.
-/

namespace TagFormula.Session

/-! ## The first free id -/

/-- The search passes over ids that are taken, hence over no more than there are. -/
theorem exists_freeId_eq_add (taken : List Int) (n : Int) :
    ∃ k ≤ taken.length, freeId taken n = n + k ∧ ∀ i < k, n + i ∈ taken := by
  fun_induction freeId taken n with
  | case1 taken n h ih =>
    obtain ⟨k, hk, heq, hpassed⟩ := ih
    have hlength := List.length_erase_of_mem h
    have hpos := List.length_pos_of_mem h
    refine ⟨k + 1, by omega, by omega, fun i hi => ?_⟩
    cases i with
    | zero => simpa using h
    | succ i =>
      have hnext : n + (i + 1 : Nat) = n + 1 + i := by omega
      rw [hnext]
      exact List.mem_of_mem_erase (hpassed i (by omega))
  | case2 taken n h => exact ⟨0, by omega, by omega, fun i hi => by omega⟩

example : freeId [2, 1, 5] 1 = 3 := by cbv

/-! ## One step -/

/-- The id that a step gives to a tag, if it selects a variable. -/
def Step.handsOut? (s : Session) (step : Step) : Option Int := do
  let choice ← step.selected? s
  let t ← (s.apply (select choice)).1.toOption
  return t.id

/-- The ids given to tags in steps, in their order. -/
def handedOut (s : Session) : List Step → List Int
  | [] => []
  | step :: steps => (step.handsOut? s).toList ++ handedOut (s.step step) steps

theorem stable_nextId (n : Int) : Stable fun s => s.nextId = n where
  edit _ s hs := by rwa [apply_edit]
  of_eq hs _ _ hnext := hnext.trans hs

variable {source : Text → List ValidSuggestion} {s : Session}

/-- A step takes no id, or one that is not below the ids to come. -/
theorem Sound.step_cases (h : Sound source s) (step : Step) :
    step.handsOut? s = none ∧ (s.step step).nextId = s.nextId ∨
      ∃ id, step.handsOut? s = some id ∧ s.nextId ≤ id ∧ (s.step step).nextId = id + 1 := by
  cases hselected : step.selected? s with
  | none =>
    refine .inl ⟨?_, (stable_nextId s.nextId).step hselected rfl⟩
    rw [Step.handsOut?, hselected]
    rfl
  | some v =>
    obtain ⟨t, s', hselect, -, -, hid, hnext⟩ := h.apply_select (h.valid_of_selected? hselected)
    refine .inr ⟨t.id, ?_, ?_, ?_⟩
    · rw [Step.handsOut?, hselected]
      simp only [Option.bind_eq_bind, Option.bind_some, hselect]
      rfl
    · rw [hid]
      exact le_freeId _ _
    · rw [step_of_selected? hselected, hselect]
      exact hnext

/-! ## Runs -/

theorem Sound.nextId_le_of_mem_handedOut (h : Sound source s) {steps : List Step} {id : Int}
    (hid : id ∈ handedOut s steps) : s.nextId ≤ id := by
  induction steps generalizing s with
  | nil => cases hid
  | cons step steps ih =>
    rw [handedOut, List.mem_append] at hid
    obtain ⟨hnone, hnext⟩ | ⟨first, hsome, hle, hnext⟩ := h.step_cases step
    · rw [hnone] at hid
      have hid := ih (h.step step) (hid.resolve_left (by simp))
      omega
    · rw [hsome, Option.toList_some, List.mem_singleton] at hid
      rcases hid with rfl | hid
      · exact hle
      · have hid := ih (h.step step) hid
        omega

theorem Sound.pairwise_handedOut (h : Sound source s) (steps : List Step) :
    (handedOut s steps).Pairwise (· < ·) := by
  induction steps generalizing s with
  | nil => exact List.Pairwise.nil
  | cons step steps ih =>
    rw [handedOut]
    obtain ⟨hnone, -⟩ | ⟨first, hsome, -, hnext⟩ := h.step_cases step
    · rw [hnone]
      exact ih (h.step step)
    · rw [hsome]
      refine List.Pairwise.cons (fun id hid => ?_) (ih (h.step step))
      have hle := (h.step step).nextId_le_of_mem_handedOut hid
      omega

/-- Whatever has been done to a session, and to its buffer from outside, with tags put in under
any ids: selecting a variable succeeds, and its tag gets an id that no tag has, the first one from
the ids to come on. The search passes over no more ids than there are tags. No other step takes an
id, and over the whole life of a session the ids given ascend, so that none is given twice. -/
theorem selected_ids_fresh (source : Text → List ValidSuggestion) (id : Text) (limit : Int)
    (steps : List Step) :
    let s := afterSteps source id limit steps
    (∀ (step : Step) choice, step.selected? s = some choice →
      ∃ t s', s.apply (select choice) = (.ok t, s') ∧ s.step step = s' ∧ t ∈ s'.buffer.tags ∧
        t.id ∉ s.buffer.ids ∧ ∃ k ≤ s.buffer.tags.length, t.id = s.nextId + k ∧
          ∀ i < k, s.nextId + i ∈ s.buffer.ids) ∧
      (∀ step : Step, step.selected? s = none → (s.step step).nextId = s.nextId) ∧
      (handedOut (afterSteps source id limit []) steps).Pairwise (· < ·) := by
  intro s
  have hs : Sound source s := sound_afterSteps id limit steps
  refine ⟨fun step choice hchoice => ?_, fun step hnone => ?_,
    (sound_start id limit).pairwise_handedOut steps⟩
  · obtain ⟨t, s', hselect, -, hmem, hid, -⟩ := hs.apply_select (hs.valid_of_selected? hchoice)
    obtain ⟨k, hk, hfree, hpassed⟩ := exists_freeId_eq_add s.buffer.ids s.nextId
    refine ⟨t, s', hselect, ?_, hmem, ?_, k, ?_, hid.trans hfree, hpassed⟩
    · rw [step_of_selected? hchoice, hselect]
    · rw [hid]
      exact freeId_not_mem _ _
    · rwa [Buffer.ids, List.length_map] at hk
  · exact (stable_nextId s.nextId).step hnone rfl

end TagFormula.Session
