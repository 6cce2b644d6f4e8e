import TagFormula.Proofs.Buffer.Refusal

/-!
# Edits are all or nothing

What an edit does to a buffer that nobody has checked: text, tags, positions,
cursor and active id may contradict each other in any way. As a rule an edit can still end
in two ways only. It stops with an error and the buffer is the one from before, in all
its parts and with the tags in their order; or it succeeds.

The exception is a changed buffer that contradicts itself in a point where there are no
words for it, since they would have to name an integer with too many digits
(`Unwordable`). What is raised then is not an inconsistency, and only an inconsistency is
taken back, so the change stays although the edit has failed (`edit_left_half_done`).

`Ends` says this of an edit together with what its success means. It passes from the
parts of an edit to the whole as long as everything before the last part only looks:
the judgements of the arguments come first, the change is the last part, and that is
a transaction wherever the text changes. A transaction that succeeds has passed the
check, so an edit of this kind makes even an inconsistent buffer consistent, or is
taken back.
-/

namespace TagFormula

namespace Buffer

/-- The buffer contradicts itself, and there are no words for what is found out first. -/
def Unwordable (b : Buffer) : Prop :=
  ∃ fault, b.check = .error fault ∧ ¬ fault.IsWordable

/-- The edit only looks: whether it succeeds or not, the buffer is the one from before. -/
def Looks {α : Type} (edit : Edit α) : Prop :=
  ∀ b, (∃ e, edit.run b = .error e b) ∨ ∃ x, edit.run b = .ok x b

/-- On every buffer the edit stops without a change, or stops at a changed buffer for which there are
no words, or succeeds with a buffer that is related to the one before. -/
def Ends {α : Type} (edit : Edit α) (R : Buffer → Buffer → Prop) : Prop :=
  ∀ b, (∃ e, edit.run b = .error e b) ∨
    (∃ b', edit.run b = .error .integerTooLong b' ∧ b'.Unwordable) ∨
    ∃ x b', edit.run b = .ok x b' ∧ R b b'

/-- An error leaves the buffer as it was. -/
def Atomic {α : Type} (b : Buffer) (edit : Edit α) : Prop :=
  ∀ e b', b.apply edit = (.error e, b') → b' = b

/-- An error leaves the buffer as it was, or the changed buffer cannot be complained of. -/
def AtomicIfWordable {α : Type} (b : Buffer) (edit : Edit α) : Prop :=
  ∀ e b', b.apply edit = (.error e, b') → b' = b ∨ e = .integerTooLong ∧ b'.Unwordable

/-- Success leaves a buffer that passes the check. -/
def Verified {α : Type} (b : Buffer) (edit : Edit α) : Prop :=
  ∀ x b', b.apply edit = (.ok x, b') → b'.check = .ok ()

/-! ## Edits that only look -/

namespace Looks

variable {α β : Type} {edit : Edit α}

theorem pure (x : α) : Looks (Pure.pure x) :=
  fun _ => .inr ⟨x, rfl⟩

theorem refuse (e : BufferError) : Looks (Buffer.refuse e : Edit α) :=
  fun b => .inl ⟨e.raised, run_refuse e b⟩

theorem get_bind {next : Buffer → Edit α} (h : ∀ b, Looks (next b)) :
    Looks (MonadState.get >>= next) := fun b => h b b

/-- A change that cannot fail may follow. -/
theorem atomic_bind {next : α → Edit β} (h : Looks edit)
    (hnext : ∀ x b, ∃ y b', (next x).run b = .ok y b') (b : Buffer) :
    b.Atomic (edit >>= next) := by
  intro e b' hb
  obtain ⟨e', hrun⟩ | ⟨x, hrun⟩ := h b
  · have hbind : (edit >>= next).run b = .error e' b := by rw [EStateM.run_bind, hrun]
    rw [apply_of_run_error hbind] at hb
    exact (Prod.mk.inj hb).2.symm
  · obtain ⟨y, b'', hrun'⟩ := hnext x b
    rw [apply_of_run_ok ((run_bind_of_ok hrun).trans hrun')] at hb
    exact nomatch (Prod.mk.inj hb).1

end Looks

theorem requireOffset_looks (p : Int) : Looks (requireOffset p) := by
  refine .get_bind fun b => ?_
  split
  · exact .refuse _
  · exact .pure _

theorem requireBoundary_looks (p : Int) (what : Cut) : Looks (requireBoundary p what) := by
  refine .get_bind fun b => ?_
  split
  · exact .refuse _
  · exact .pure _

theorem requireValid_looks (t : Tag) : Looks (requireValid t) := by
  unfold requireValid
  split
  · exact .pure _
  · exact .refuse _

theorem getTag_looks (id : Int) : Looks (getTag id) := by
  refine .get_bind fun b => ?_
  split
  · exact .pure _
  · exact .refuse _

/-! ## How edits end -/

namespace Ends

variable {α β : Type} {edit : Edit α} {R S : Buffer → Buffer → Prop}

theorem mono (h : Ends edit R) (hRS : ∀ b b', R b b' → S b b') : Ends edit S := fun b =>
  (h b).imp_right (.imp_right fun ⟨x, b', hrun, hR⟩ => ⟨x, b', hrun, hRS b b' hR⟩)

theorem atomicIfWordable (h : Ends edit R) (b : Buffer) : b.AtomicIfWordable edit := by
  intro e b' hb
  obtain ⟨e', hrun⟩ | ⟨b'', hrun, hwords⟩ | ⟨x, b'', hrun, -⟩ := h b
  · rw [apply_of_run_error hrun] at hb
    exact .inl (Prod.mk.inj hb).2.symm
  · rw [apply_of_run_error hrun] at hb
    obtain ⟨he, rfl⟩ := Prod.mk.inj hb
    exact .inr ⟨(Except.error.inj he).symm, hwords⟩
  · rw [apply_of_run_ok hrun] at hb
    exact nomatch (Prod.mk.inj hb).1

theorem verified (h : Ends edit R) (hcheck : ∀ b b', R b b' → b'.check = .ok ()) (b : Buffer) :
    b.Verified edit := by
  intro x b' hb
  obtain ⟨e, hrun⟩ | ⟨b'', hrun, -⟩ | ⟨y, b'', hrun, hR⟩ := h b
  · rw [apply_of_run_error hrun] at hb
    exact nomatch (Prod.mk.inj hb).1
  · rw [apply_of_run_error hrun] at hb
    exact nomatch (Prod.mk.inj hb).1
  · rw [apply_of_run_ok hrun] at hb
    rw [← (Prod.mk.inj hb).2]
    exact hcheck b b'' hR

theorem of_run_ok (h : ∀ b, ∃ x b', edit.run b = .ok x b' ∧ R b b') : Ends edit R :=
  fun b => .inr (.inr (h b))

theorem pure (x : α) : Ends (Pure.pure x) Eq :=
  of_run_ok fun b => ⟨x, b, rfl, rfl⟩

theorem refuse (e : BufferError) : Ends (Buffer.refuse e : Edit α) R :=
  fun b => .inl ⟨e.raised, run_refuse e b⟩

theorem refuse_bind (e : BufferError) (next : α → Edit β) :
    Ends ((Buffer.refuse e : Edit α) >>= next) R :=
  fun _ => .inl ⟨e.raised, rfl⟩

theorem get_bind {next : Buffer → Edit α} (h : ∀ b, Ends (next b) R) :
    Ends (MonadState.get >>= next) R :=
  fun b => h b b

theorem modify (change : Buffer → Buffer) :
    Ends (modifyGet fun b => ((), change b) : Edit Unit) fun b b' => b' = change b :=
  of_run_ok fun b => ⟨(), change b, rfl, rfl⟩

/-- A part that only looks can stand before any edit. -/
theorem bind {next : α → Edit β} (h : Looks edit) (hnext : ∀ x, Ends (next x) R) :
    Ends (edit >>= next) R := by
  intro b
  obtain ⟨e, hrun⟩ | ⟨x, hrun⟩ := h b
  · exact .inl ⟨e, by rw [EStateM.run_bind, hrun]⟩
  · rw [run_bind_of_ok hrun]
    exact hnext x b

/-- What follows a change may only choose the value that is returned. -/
theorem map (h : Ends edit R) (f : α → β) : Ends (edit >>= fun x => Pure.pure (f x)) R := by
  intro b
  obtain ⟨e, hrun⟩ | ⟨b', hrun, hwords⟩ | ⟨x, b', hrun, hR⟩ := h b
  · exact .inl ⟨e, by rw [EStateM.run_bind, hrun]⟩
  · exact .inr (.inl ⟨b', by rw [EStateM.run_bind, hrun], hwords⟩)
  · exact .inr (.inr ⟨f x, b', by rw [run_bind_of_ok hrun, EStateM.run_pure], hR⟩)

/-- A transaction that goes through has passed the check; of the others those are taken back for which
there are words. -/
theorem transaction (change : Buffer → Buffer) :
    Ends (Buffer.transaction change) fun b b' => b'.check = .ok () ∧ b' = change b := by
  intro b
  cases hcheck : (change b).check with
  | ok _ => exact .inr (.inr ⟨(), change b, run_transaction_of_check hcheck, hcheck, rfl⟩)
  | error fault =>
      by_cases hwords : fault.IsWordable
      · exact .inl ⟨_, run_transaction_restored hcheck hwords⟩
      · exact .inr (.inl ⟨_, run_transaction_kept hcheck hwords, fault, hcheck, hwords⟩)

end Ends

/-! ## The edits -/

/-- Empty text is the one case in which nothing is checked, because nothing changes. -/
theorem insertText_ends (p : Int) (s : Text) :
    Ends (insertText p s) fun b b' =>
      if s = [] then b' = b else b'.check = .ok () ∧ b' = b.splice p s := by
  refine .bind (requireOffset_looks p) fun _ => .bind (requireBoundary_looks p .text) fun _ => ?_
  by_cases hs : s = []
  · simpa [hs, eq_comm] using Ends.pure ()
  · simpa [hs] using Ends.transaction (splice p s)

theorem deleteRange_ends (p q : Int) :
    Ends (deleteRange p q) fun b b' =>
      if p = q then b' = b else b'.check = .ok () ∧ b' = b.cut p q := by
  refine .get_bind fun b => ?_
  dsimp only
  split
  · exact .refuse_bind _ _
  refine .bind (requireOffset_looks p) fun _ => .bind (requireOffset_looks q) fun _ => ?_
  by_cases hpq : p = q
  · simpa [hpq, eq_comm] using Ends.pure ()
  · simp only [if_neg hpq]
    split
    · exact .refuse _
    · exact .transaction _

theorem insertTag_ends (s : Suggestion) (p : Int) :
    Ends (insertTag s p) fun b b' => b'.check = .ok () ∧ b' = b.place (.ofSuggestion s p) := by
  refine .get_bind fun b => ?_
  dsimp only
  split
  · exact .refuse_bind _ _
  refine .bind (requireOffset_looks p) fun _ => .bind (requireBoundary_looks p .tag) fun _ => ?_
  exact .bind (requireValid_looks _) fun _ => (Ends.transaction _).map _

theorem removeTag_ends (id : Int) :
    Ends (removeTag id) fun b b' => b'.check = .ok () ∧ ∃ t, b' = b.takeOut t :=
  .bind (getTag_looks id) fun t =>
    ((Ends.transaction _).map _).mono fun _ _ h => ⟨h.1, t, h.2⟩

theorem setCursor_ends (p : Int) :
    Ends (setCursor p) fun b b' => b' = { b with cursor := p } :=
  .bind (requireOffset_looks p) fun _ => .modify _

theorem setActive_ends (id : Option Int) :
    Ends (setActive id) fun b b' => b' = { b with active := id } := by
  cases id with
  | none => exact .modify _
  | some id => exact .bind (getTag_looks id) fun _ => .modify _

theorem toggleActive_ends (id : Int) :
    Ends (toggleActive id) fun b b' =>
      b' = { b with active := if b.active = some id then none else some id } :=
  .bind (getTag_looks id) fun _ => .of_run_ok fun _ => ⟨_, _, rfl, rfl⟩

theorem setActive_atomic (b : Buffer) (id : Option Int) : b.Atomic (setActive id) := by
  cases id with
  | none => nofun
  | some id => exact (getTag_looks id).atomic_bind (fun _ _ => ⟨_, _, rfl⟩) b

/-- From every buffer, consistent or not, and with any arguments: an edit that is refused leaves
text, tags, cursor and active tag as they were, and an edit that changes text or tags leaves a
buffer that passes the check. One case is excepted. When the changed buffer contradicts itself and
there are no words for it, because an integer in them would have too many digits, then another
error is raised than the one that is taken back, and the change stays. -/
theorem edits_all_or_nothing (b : Buffer) :
    (∀ p s, b.AtomicIfWordable (insertText p s)) ∧
    (∀ p q, b.AtomicIfWordable (deleteRange p q)) ∧
    (∀ s p, b.AtomicIfWordable (insertTag s p)) ∧ (∀ id, b.AtomicIfWordable (removeTag id)) ∧
    (∀ p, b.Atomic (setCursor p)) ∧ (∀ id, b.Atomic (setActive id)) ∧
    (∀ id, b.Atomic (toggleActive id)) ∧
    (∀ p s, s ≠ [] → b.Verified (insertText p s)) ∧
    (∀ p q, p < q → b.Verified (deleteRange p q)) ∧
    (∀ s p, b.Verified (insertTag s p)) ∧ (∀ id, b.Verified (removeTag id)) ∧
    ∀ change : Buffer → Buffer, (change b).Unwordable →
      b.apply (transaction change) = (.error .integerTooLong, change b) := by
  refine ⟨fun p s => (insertText_ends p s).atomicIfWordable b,
    fun p q => (deleteRange_ends p q).atomicIfWordable b,
    fun s p => (insertTag_ends s p).atomicIfWordable b,
    fun id => (removeTag_ends id).atomicIfWordable b,
    fun p => (requireOffset_looks p).atomic_bind (fun _ _ => ⟨_, _, rfl⟩) b, b.setActive_atomic,
    fun id => (getTag_looks id).atomic_bind (fun _ _ => ⟨_, _, rfl⟩) b, ?_, ?_,
    fun s p => (insertTag_ends s p).verified (fun _ _ h => h.1) b,
    fun id => (removeTag_ends id).verified (fun _ _ h => h.1) b, ?_⟩
  · intro p s hs
    have hends := insertText_ends p s
    simp only [if_neg hs] at hends
    exact hends.verified (fun _ _ h => h.1) b
  · intro p q hpq
    have hends := deleteRange_ends p q
    simp only [if_neg (show ¬ p = q by omega)] at hends
    exact hends.verified (fun _ _ h => h.1) b
  · rintro change ⟨fault, hcheck, hwords⟩
    exact apply_of_run_error (run_transaction_kept hcheck hwords)

/-- A tag has been moved so far off that its end is almost too great an integer to be written. Text put
in at the start moves it on, its span cannot be named any more, and the text stays although the edit
fails. -/
theorem edit_left_half_done :
    let far : Int := Nat.pow 10 Literal.maxIntegerDigits - 2
    let b : Buffer := ⟨['A'], [⟨⟨1, ['A'], 0⟩, far⟩], 0, none⟩
    b.apply (insertText 0 ['x']) =
      (.error .integerTooLong, ⟨['x', 'A'], [⟨⟨1, ['A'], 0⟩, far + 1⟩], 0, none⟩) := by
  intro far b
  have hten : 10 ≤ Nat.pow 10 Literal.maxIntegerDigits :=
    Literal.ten_le_pow (by decide)
  have hstop : far + 1 + 1 = (Nat.pow 10 Literal.maxIntegerDigits : Nat) := by omega
  have hchange : b.splice 0 ['x'] = ⟨['x', 'A'], [⟨⟨1, ['A'], 0⟩, far + 1⟩], 0, none⟩ := by
    have hmoves : (0 : Int) ≤ far := by omega
    simp only [splice, b, List.map_cons, List.map_nil, shiftFrom, if_pos hmoves]
    rfl
  have hboundary : b.IsBoundary 0 := by
    refine ⟨Int.le_refl 0, by decide, fun t ht => ?_⟩
    rw [List.mem_singleton.1 ht]
    have hposition : ¬ far < 0 := by omega
    exact fun hin => hposition hin.1
  have hcheck : (b.splice 0 ['x']).check = .error (.spanOutside 1 (far + 1) (far + 1 + 1)) := by
    have hout : (2 : Int) < far + 1 + 1 := by omega
    rw [hchange]
    simp [check, sortedTags, Tag.ascending, checkTags, length, Tag.stop, hout]
  have hwords : ¬ (Inconsistency.spanOutside 1 (far + 1) (far + 1 + 1)).IsWordable := by
    intro h
    have hshort := h (far + 1 + 1) (by simp [Inconsistency.integers])
    rw [hstop, Literal.isLong, Int.natAbs_natCast, decide_eq_false_iff_not] at hshort
    exact hshort (Nat.le_refl _)
  rw [← hchange]
  refine apply_of_run_error ?_
  rw [run_insertText hboundary]
  exact run_transaction_kept hcheck hwords

end Buffer

end TagFormula
