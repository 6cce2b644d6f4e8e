import TagFormula.Buffer.Edit
import TagFormula.Proofs.Buffer.Layout

/-!
# Which edits are refused

Every edit judges its arguments before it changes anything. For each edit there
are two statements here, which exclude each other: where the arguments are right
the edit comes down to its transaction, and where they are not it is `Refused`,
that is, it stops without a change for a reason other than an inconsistency. Whether there
are words for the reason makes no difference to this. No assumption is made about the
buffer.
-/

namespace TagFormula

theorem run_bind_of_ok {ε σ α β : Type} {action : EStateM ε σ α} {next : α → EStateM ε σ β}
    {s s' : σ} {x : α} (h : action.run s = .ok x s') :
    (action >>= next).run s = (next x).run s' := by
  rw [EStateM.run_bind, h]

namespace Buffer

/-- An edit is turned away because of its arguments, and nothing changes. -/
def Refused {α : Type} (edit : Edit α) (b : Buffer) : Prop :=
  ∃ e, edit.run b = .error e b ∧ ∀ fault, e ≠ .inconsistent fault

theorem apply_of_run_ok {α : Type} {edit : Edit α} {b b' : Buffer} {x : α}
    (h : edit.run b = .ok x b') : b.apply edit = (.ok x, b') := by
  have h' : edit b = .ok x b' := h
  rw [apply, h']

theorem apply_of_run_error {α : Type} {edit : Edit α} {b b' : Buffer} {e : BufferError}
    (h : edit.run b = .error e b') : b.apply edit = (.error e, b') := by
  have h' : edit b = .error e b' := h
  rw [apply, h']

theorem Refused.bind {α β : Type} {edit : Edit α} {b : Buffer} (h : Refused edit b)
    (next : α → Edit β) : Refused (edit >>= next) b := by
  obtain ⟨e, he, hfault⟩ := h
  exact ⟨e, by rw [EStateM.run_bind, he], hfault⟩

theorem Refused.of_bind {α β : Type} {edit : Edit α} {next : α → Edit β} {b : Buffer} {x : α}
    (hx : edit.run b = .ok x b) (h : Refused (next x) b) : Refused (edit >>= next) b := by
  obtain ⟨e, he, hfault⟩ := h
  exact ⟨e, by rw [run_bind_of_ok hx, he], hfault⟩

theorem run_refuse {α : Type} (e : BufferError) (b : Buffer) :
    (refuse e : Edit α).run b = .error e.raised b := rfl

theorem refuse_refused {α : Type} {e : BufferError} (h : ∀ fault, e ≠ .inconsistent fault)
    (b : Buffer) : Refused (refuse e : Edit α) b :=
  ⟨e.raised, run_refuse e b, e.raised_ne_inconsistent h⟩

/-! ## Transactions -/

theorem run_requireConsistent {b : Buffer} (h : b.check = .ok ()) :
    requireConsistent.run b = .ok () b := by
  simp only [requireConsistent, EStateM.run_bind, EStateM.run_get, h, EStateM.run_pure]

theorem run_requireConsistent_error {b : Buffer} {fault : Inconsistency}
    (h : b.check = .error fault) :
    requireConsistent.run b = .error (BufferError.inconsistent fault).raised b := by
  simp only [requireConsistent, EStateM.run_bind, EStateM.run_get, h, run_refuse]

section Transaction

variable {b : Buffer} {change : Buffer → Buffer} {fault : Inconsistency}

/-- A change that passes the check goes through. -/
theorem run_transaction_of_check (h : (change b).check = .ok ()) :
    (transaction change).run b = .ok () (change b) := by
  have hcheck : requireConsistent (change b) = .ok () (change b) := run_requireConsistent h
  simp only [transaction, EStateM.run, hcheck]

/-- An inconsistency that is raised is taken back. -/
theorem run_transaction_restored (h : (change b).check = .error fault) (hwords : fault.IsWordable) :
    (transaction change).run b = .error (.inconsistent fault) b := by
  have hcheck : requireConsistent (change b) = .error (.inconsistent fault) (change b) := by
    rw [← BufferError.raised_inconsistent_of_isWordable hwords]
    exact run_requireConsistent_error h
  simp only [transaction, EStateM.run, hcheck]

/-- An inconsistency that cannot be put into words stays. -/
theorem run_transaction_kept (h : (change b).check = .error fault) (hwords : ¬ fault.IsWordable) :
    (transaction change).run b = .error .integerTooLong (change b) := by
  have hcheck : requireConsistent (change b) = .error .integerTooLong (change b) := by
    rw [← BufferError.raised_inconsistent_of_not_isWordable hwords]
    exact run_requireConsistent_error h
  simp only [transaction, EStateM.run, hcheck]

end Transaction

/-! ## Offsets -/

theorem run_requireOffset {b : Buffer} {p : Int} (h₀ : 0 ≤ p) (h₁ : p ≤ b.length) :
    (requireOffset p).run b = .ok () b := by
  have h : ¬ (p < 0 ∨ (b.length : Int) < p) := by omega
  simp only [requireOffset, EStateM.run_bind, EStateM.run_get, if_neg h, EStateM.run_pure]

theorem requireOffset_refused {b : Buffer} {p : Int} (h : ¬ (0 ≤ p ∧ p ≤ b.length)) :
    Refused (requireOffset p) b := by
  have h' : p < 0 ∨ (b.length : Int) < p := by omega
  refine .of_bind (EStateM.run_get b) ?_
  simp only [if_pos h']
  exact refuse_refused (by simp) b

theorem run_requireBoundary {b : Buffer} {p : Int} (h : b.IsBoundary p) (what : Cut) :
    (requireBoundary p what).run b = .ok () b := by
  have hnone : b.tagAround? p = none := by
    simpa [tagAround?] using h.outside
  simp only [requireBoundary, EStateM.run_bind, EStateM.run_get, hnone, EStateM.run_pure]

theorem requireBoundary_refused {b : Buffer} {p : Int} {t : Tag} (ht : t ∈ b.tags)
    (hp : t.position < p ∧ p < t.stop) (what : Cut) : Refused (requireBoundary p what) b := by
  obtain ⟨u, hu⟩ : ∃ u, b.tagAround? p = some u := by
    rw [← Option.isSome_iff_exists, tagAround?, List.find?_isSome]
    exact ⟨t, ht, by simpa using hp⟩
  refine .of_bind (EStateM.run_get b) ?_
  simp only [hu]
  exact refuse_refused (by simp) b

/-- An offset in the text that is no boundary lies strictly inside a tag. -/
theorem exists_tag_of_not_isBoundary {b : Buffer} {p : Int} (h : ¬ b.IsBoundary p)
    (h₀ : 0 ≤ p) (h₁ : p ≤ b.length) : ∃ t ∈ b.tags, t.position < p ∧ p < t.stop := by
  refine Classical.byContradiction fun hno => h ⟨h₀, h₁, ?_⟩
  intro t ht hp
  exact hno ⟨t, ht, hp⟩

/-- The two checks that stand before an insertion. -/
theorem place_refused {α : Type} {b : Buffer} {p : Int} (h : ¬ b.IsBoundary p) (what : Cut)
    (next : Edit α) : Refused (do requireOffset p; requireBoundary p what; next) b := by
  by_cases hp : 0 ≤ p ∧ p ≤ b.length
  · obtain ⟨t, ht, hin⟩ := exists_tag_of_not_isBoundary h hp.1 hp.2
    exact .of_bind (run_requireOffset hp.1 hp.2) ((requireBoundary_refused ht hin what).bind _)
  · exact (requireOffset_refused hp).bind _

/-! ## Insertions -/

theorem run_insertText {b : Buffer} {p : Int} (h : b.IsBoundary p) (s : Text) :
    (insertText p s).run b =
      if s.isEmpty then .ok () b else (transaction (splice p s)).run b := by
  rw [insertText, run_bind_of_ok (run_requireOffset h.nonneg h.le_length),
    run_bind_of_ok (run_requireBoundary h .text)]
  split <;> rfl

theorem insertText_refused {b : Buffer} {p : Int} (h : ¬ b.IsBoundary p) (s : Text) :
    Refused (insertText p s) b :=
  place_refused h .text _

theorem run_requireValid {t : Tag} (h : t.faults = []) (b : Buffer) :
    (requireValid t).run b = .ok () b := by
  rw [requireValid, h]
  rfl

theorem requireValid_refused {t : Tag} (h : t.faults ≠ []) (b : Buffer) :
    Refused (requireValid t) b := by
  rw [requireValid, if_neg (by simpa using h)]
  exact refuse_refused (by simp) b

theorem run_insertTag {b b' : Buffer} {s : Suggestion} {p : Int} (hs : s.Valid)
    (hid : s.id ∉ b.ids) (h : b.IsBoundary p)
    (ht : (transaction (place (.ofSuggestion s p))).run b = .ok () b') :
    (insertTag s p).run b = .ok (.ofSuggestion s p) b' := by
  have hhas : ¬ b.hasId s.id = true := fun hs => hid ((b.hasId_iff _).1 hs)
  simp only [insertTag, EStateM.run_bind, EStateM.run_get, if_neg hhas,
    run_requireOffset h.nonneg h.le_length, run_requireBoundary h .tag,
    run_requireValid (Tag.faults_ofSuggestion hs h.nonneg), ht, EStateM.run_pure]

theorem insertTag_refused {b : Buffer} {s : Suggestion} {p : Int}
    (h : ¬ (s.Valid ∧ s.id ∉ b.ids ∧ b.IsBoundary p)) : Refused (insertTag s p) b := by
  refine .of_bind (EStateM.run_get b) ?_
  by_cases hid : s.id ∈ b.ids
  · simp only [if_pos ((b.hasId_iff _).2 hid)]
    exact (refuse_refused (by simp) b).bind _
  simp only [if_neg fun hs => hid ((b.hasId_iff _).1 hs)]
  by_cases hp : b.IsBoundary p
  · have hs : ¬ s.Valid := fun hs => h ⟨hs, hid, hp⟩
    refine .of_bind (run_requireOffset hp.nonneg hp.le_length) ?_
    refine .of_bind (run_requireBoundary hp .tag) ?_
    exact (requireValid_refused (Tag.faults_ofSuggestion_ne_nil hs p) b).bind _
  · exact place_refused hp .tag _

/-! ## Deletions -/

theorem run_deleteRange_self {b : Buffer} {p : Int} (h₀ : 0 ≤ p) (h₁ : p ≤ b.length) :
    (deleteRange p p).run b = .ok () b := by
  have hlt : ¬ p < p := by omega
  simp only [deleteRange, EStateM.run_bind, EStateM.run_get, if_neg hlt,
    run_requireOffset h₀ h₁, if_true, EStateM.run_pure]

/-- A tag is cut by a range exactly when an end of the range lies strictly inside it. -/
theorem isCut_iff {p q : Int} (hpq : p < q) (t : Tag) :
    isCut p q t = true ↔
      (t.position < p ∧ p < t.stop) ∨ (t.position < q ∧ q < t.stop) := by
  simp only [isCut, Bool.and_eq_true, Bool.not_eq_true', Bool.or_eq_false_iff,
    Bool.and_eq_false_iff, decide_eq_false_iff_not]
  omega

theorem run_deleteRange {b : Buffer} {p q : Int} (hp : b.IsBoundary p) (hq : b.IsBoundary q)
    (hpq : p < q) : (deleteRange p q).run b = (transaction (cut p q)).run b := by
  have hlt : ¬ q < p := by omega
  have hne : ¬ p = q := by omega
  have hnone : b.tags.find? (isCut p q) = none := by
    rw [List.find?_eq_none]
    intro t ht hcut
    rcases (isCut_iff hpq t).1 hcut with hin | hin
    · exact hp.outside t ht hin
    · exact hq.outside t ht hin
  simp only [deleteRange, EStateM.run_bind, EStateM.run_get, if_neg hlt, if_neg hne, hnone,
    run_requireOffset hp.nonneg hp.le_length, run_requireOffset hq.nonneg hq.le_length]

/-- Of the tags that a range cuts the first one is named. -/
theorem run_deleteRange_of_find? {b : Buffer} {p q : Int} {t : Tag}
    (hfind : b.tags.find? (isCut p q) = some t) (hpq : p < q) (hp : 0 ≤ p) (hq : q ≤ b.length) :
    (deleteRange p q).run b = .error (BufferError.cutsTag .range t.id).raised b := by
  have hlt : ¬ q < p := by omega
  have hne : ¬ p = q := by omega
  have hp' := run_requireOffset hp (b := b) (by omega)
  have hq' := run_requireOffset (p := q) (by omega) hq
  simp only [deleteRange, EStateM.run_bind, EStateM.run_get, if_neg hlt, if_neg hne, hfind, hp',
    hq', run_refuse]

/-- A range that cuts a tag is not deleted. -/
theorem deleteRange_refused_of_isCut {b : Buffer} {p q : Int} {t : Tag} (ht : t ∈ b.tags)
    (hcut : isCut p q t = true) (hpq : p < q) (hp : 0 ≤ p) (hq : q ≤ b.length) :
    Refused (deleteRange p q) b := by
  obtain ⟨u, hu⟩ : ∃ u, b.tags.find? (isCut p q) = some u := by
    rw [← Option.isSome_iff_exists, List.find?_isSome]
    exact ⟨t, ht, hcut⟩
  exact ⟨_, run_deleteRange_of_find? hu hpq hp hq, BufferError.raised_ne_inconsistent (by simp)⟩

/-- A range with an end outside the text is not deleted. -/
theorem deleteRange_refused_of_outside {b : Buffer} {p q : Int} (hpq : p ≤ q)
    (h : ¬ (0 ≤ p ∧ q ≤ b.length)) : Refused (deleteRange p q) b := by
  have hlt : ¬ q < p := by omega
  refine .of_bind (EStateM.run_get b) ?_
  simp only [if_neg hlt]
  by_cases hp : 0 ≤ p ∧ p ≤ b.length
  · have hq : ¬ (0 ≤ q ∧ q ≤ b.length) := by omega
    exact .of_bind (run_requireOffset hp.1 hp.2) ((requireOffset_refused hq).bind _)
  · exact (requireOffset_refused hp).bind _

theorem deleteRange_refused {b : Buffer} {p q : Int}
    (h : ¬ (p ≤ q ∧ 0 ≤ p ∧ q ≤ b.length ∧ (p = q ∨ b.IsBoundary p ∧ b.IsBoundary q))) :
    Refused (deleteRange p q) b := by
  by_cases hcrossed : q < p
  · refine .of_bind (EStateM.run_get b) ?_
    simp only [if_pos hcrossed]
    exact (refuse_refused (by simp) b).bind _
  by_cases hin : 0 ≤ p ∧ q ≤ b.length
  · have hne : p ≠ q := fun heq => h ⟨by omega, hin.1, hin.2, .inl heq⟩
    have hpq : p < q := by omega
    have hcut : ∃ t ∈ b.tags, isCut p q t = true := by
      by_cases hbp : b.IsBoundary p
      · have hbq : ¬ b.IsBoundary q := fun hbq => h ⟨by omega, hin.1, hin.2, .inr ⟨hbp, hbq⟩⟩
        obtain ⟨t, ht, hq⟩ := exists_tag_of_not_isBoundary hbq (by omega) hin.2
        exact ⟨t, ht, (isCut_iff hpq t).2 (.inr hq)⟩
      · obtain ⟨t, ht, hp⟩ := exists_tag_of_not_isBoundary hbp hin.1 (by omega)
        exact ⟨t, ht, (isCut_iff hpq t).2 (.inl hp)⟩
    obtain ⟨t, ht, hcut⟩ := hcut
    exact deleteRange_refused_of_isCut ht hcut hpq hin.1 hin.2
  · exact deleteRange_refused_of_outside (by omega) hin

/-! ## Tags by their id -/

theorem run_getTag {b : Buffer} {id : Int} {t : Tag} (h : b.find? id = some t) :
    (getTag id).run b = .ok t b := by
  simp only [getTag, EStateM.run_bind, EStateM.run_get, h, EStateM.run_pure]

theorem find?_eq_none_iff {b : Buffer} {id : Int} : b.find? id = none ↔ id ∉ b.ids := by
  rw [find?, List.find?_eq_none, ids]
  simp only [beq_iff_eq, List.mem_map, not_exists, not_and]

theorem run_getTag_error {b : Buffer} {id : Int} (h : b.find? id = none) :
    (getTag id).run b =
      .error (BufferError.tagNotFound id (b.ids.mergeSort (· ≤ ·))).raised b := by
  simp only [getTag, EStateM.run_bind, EStateM.run_get, h, run_refuse]

theorem getTag_refused {b : Buffer} {id : Int} (h : id ∉ b.ids) : Refused (getTag id) b :=
  ⟨_, run_getTag_error (find?_eq_none_iff.2 h), BufferError.raised_ne_inconsistent (by simp)⟩

theorem run_removeTag {b b' : Buffer} {id : Int} {t : Tag} (h : b.find? id = some t)
    (ht : (transaction (takeOut t)).run b = .ok () b') :
    (removeTag id).run b = .ok t b' := by
  simp only [removeTag, EStateM.run_bind, run_getTag h, ht, EStateM.run_pure]

theorem removeTag_refused {b : Buffer} {id : Int} (h : id ∉ b.ids) : Refused (removeTag id) b :=
  (getTag_refused h).bind _

/-! ## Cursor and active tag -/

theorem run_activeTag_none {b : Buffer} (h : b.active = none) :
    activeTag.run b = .ok none b := by
  simp only [activeTag, EStateM.run_bind, EStateM.run_get, h, EStateM.run_pure]

theorem run_activeTag_some {b : Buffer} {id : Int} {t : Tag} (h : b.active = some id)
    (hfind : b.find? id = some t) : activeTag.run b = .ok (some t) b := by
  simp only [activeTag, EStateM.run_bind, EStateM.run_get, h, hfind, EStateM.run_pure]

theorem setCursor_refused {b : Buffer} {p : Int} (h : ¬ (0 ≤ p ∧ p ≤ b.length)) :
    Refused (setCursor p) b :=
  (requireOffset_refused h).bind _

theorem toggleActive_refused {b : Buffer} {id : Int} (h : id ∉ b.ids) :
    Refused (toggleActive id) b :=
  (getTag_refused h).bind _

end Buffer

end TagFormula
